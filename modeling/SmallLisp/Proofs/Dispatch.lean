import SmallLisp.Proofs.Assertions
import SmallLisp.Proofs.Origins

/-!
# Dispatch never goes wrong

Whatever is asked for when a program is run that has been read from a text, what it is dispatched on has
a case. An atom or a call has been made of a token of the text, which is in the tables, and a function
that is held or called has a body out of the program. So evaluation by tokens and kinds asserts nothing
that fails, and agrees with evaluation. Main statement: `Program.dispatch_holds`.
-/

set_option autoImplicit false

namespace SmallLisp

open Evaluator

/-- Whether evaluation looks at the token of a node. -/
def Expr.onToken : Expr → Bool
  | literal .. | name .. | call .. => true
  | _ => false

/-- A node that is evaluated by its token has been made of one that the scanner finds in the text. -/
theorem Program.Node.exists_site {text : List Char} {p : Program} (hp : parse text = .ok p) {e : Expr}
    (he : p.Node e) (htoken : e.onToken = true) :
    ∃ s : Site, s.expr? = some e ∧ .ok s.token ∈ (Cursor.start text).results := by
  have hfound := introduction_mem_results hp he
  cases e with
  | literal l pos =>
    refine ⟨.atom ⟨l.lexeme, pos⟩, ?_, hfound⟩
    cases l with
    | bool b => cases b <;> rfl
    | _ => rfl
  | name x pos => exact ⟨.atom ⟨.ident x, pos⟩, rfl, hfound⟩
  | call callee args pos =>
    refine ⟨.call ⟨callee.lexeme, pos⟩ args, ?_, hfound⟩
    rw [Site.expr?, Callee.ofLexeme?_lexeme]
    rfl
  | _ => cases htoken

/-- Dispatch finds a case for a request that is made when a program is run. -/
structure Evaluator.Dispatches (text : List Char) (p : Program) (rounds : Nat) (lower : Evaluator)
    (q : Request) (n : Machine) : Prop where
  /-- A node of the program is evaluated, or a function is called, which is a native one or has such a
  node as its body; and so are all functions that are handed to it or held by a variable. -/
  within : q.Meets p.Node (Conditions.within p).MetBy ∧ (Conditions.within p).MetOn n
  /-- An atom or a call has been made of a token of the text. The tables have it, and no assertion fails
  where it is evaluated by this token. -/
  site : ∀ e, q = .visit e → e.onToken = true → ∃ s : Site, s.expr? = some e ∧
    .ok s.token ∈ (Cursor.start text).results ∧ s.Listed ∧
    lower.visitSite s = .of ((lower.next rounds).answer q)
  /-- No assertion fails where a native function calls something. -/
  call : ∀ callee args, q = .call callee args →
    lower.callValue callee.value args = .of ((lower.next rounds).answer q)

namespace Program

/-- Dispatch never goes wrong when a program that has been read from a text is run on a fresh machine.
Every atom and every call is evaluated by a token of the text whose kind has a case there, be it as an
atom, as the name of a function or as an operator in the table. Nothing but functions is called: the
number of arguments that one of them has accepted it accepts again once they have been evaluated,
whatever that does. Operators take apart just as many operands as they have. The text of a value, the
number that it stands for and the integer that it is converted to are looked up by its kind, and there is
always a case that fits its data. -/
theorem dispatch_holds {text : List Char} {p : Program} (hp : parse text = .ok p) :
    (∀ (limits : Limits) (input : Text), ThroughoutAll limits.rounds
      (Dispatches text p limits.rounds) limits.depth p.exprs (freshMachine input)) ∧
    (∀ v : Value, Value.renderAs? v.kind v = some v.render) ∧
    (∀ operation (v : Value), Value.numberAs? operation v.kind v = some (v.number operation)) ∧
    ∀ v : Value, v.addendAs? = some v.addend? := by
  refine ⟨fun limits input => ?_, Value.renderAs?_kind, Value.numberAs?_kind, Value.addendAs?_eq⟩
  refine (Conditions.within_sound p).throughoutAll (fun depth q n hq hn => ?_) limits.depth
    (fun e he => .expr he) (freshMachine_within p input)
  refine ⟨⟨hq, hn⟩, ?_, ?_⟩
  · rintro e rfl htoken
    obtain ⟨s, hs, hfound⟩ := Node.exists_site hp hq htoken
    exact ⟨s, hs, hfound, Site.listed_of_expr? hs, visitSite_eq _ hs limits.rounds⟩
  · rintro callee args rfl
    exact callValue_eq _ (by cases callee <;> rfl) args

/-- A call whose argument makes its name stand for another function, which accepts two arguments: the
function that has been found before is called with the one that there is. -/
theorem dispatch_holds_rebound :
    let f := Expr.declareAs "f" (.function ["x"] (.name "x" ⟨1, 20, 19⟩) ⟨1, 9, 8⟩) ⟨1, 2, 1⟩
    let call := Expr.call (.named "f") [.assign "f" (.name "map" ⟨1, 31, 30⟩) ⟨1, 27, 26⟩]
      ⟨1, 24, 23⟩
    let p : Program := ⟨.start, [f, call]⟩
    parse "(let f (function x x))(f (= f map))".toList = .ok p ∧
      (∃ m, p.run ⟨4, 1⟩ (freshMachine []) = .ok .unit m ∧
        m.scope.frame.get? "f" = some (.native .map)) ∧
      ThroughoutAll 1 (Dispatches "(let f (function x x))(f (= f map))".toList p 1) 4 p.exprs
        (freshMachine []) := by
  intro f call p
  have hp : parse "(let f (function x x))(f (= f map))".toList = .ok p := rfl
  exact ⟨hp, ⟨_, rfl, rfl⟩, (dispatch_holds hp).1 ⟨4, 1⟩ []⟩

end Program

end SmallLisp
