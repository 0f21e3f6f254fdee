import SmallLisp.Parser
import SmallLisp.Proofs.Unwinding

/-!
# Which place is blamed

A part of an expression takes the blame for what has none, the body of a function does not. Main
statement: `Program.innermost_part_blamed`, the place of an error is that of the innermost part that was
being evaluated. That is the innermost expression in progress unless this is the body of a function, in
which case it is the call by name that has led there.
-/

set_option autoImplicit false

namespace SmallLisp

open Evaluator

/-! ## What is blamed -/

namespace Task

/-- The innermost part of an expression among some tasks that have been begun below one. -/
def blamed (e : Expr) : List Task → Expr
  | [] => e
  | .part c :: ts => blamed c ts
  | .body _ :: ts | .call _ _ :: ts => blamed e ts

/-- The innermost expression among some tasks that have been begun below one. -/
def innermost (e : Expr) : List Task → Expr
  | [] => e
  | .part c :: ts | .body c :: ts => innermost c ts
  | .call _ _ :: ts => innermost e ts

/-- Whether the innermost expression among some tasks is the body of a function, given whether the one
that they have been begun below is. -/
def endsInBody (inBody : Bool) : List Task → Bool
  | [] => inBody
  | .part _ :: ts => endsInBody false ts
  | .body _ :: ts => endsInBody true ts
  | .call _ _ :: ts => endsInBody inBody ts

/-- The innermost expression is blamed unless it is the body of a function. -/
theorem blamed_eq_innermost {e e' : Expr} {inBody : Bool} {ts : List Task}
    (he : inBody = false → e = e') (h : endsInBody inBody ts = false) :
    blamed e ts = innermost e' ts := by
  induction ts generalizing e e' inBody with
  | nil => exact he h
  | cons t ts ih =>
    cases t with
    | part c => exact ih (fun _ => rfl) h
    | body b => exact ih (fun hbody : true = false => nomatch hbody) h
    | call callee args => exact ih he h

/-- What an error is blamed on once it has left some tasks and the expression that they are below. -/
theorem blame_foldr_relabel (fault : Fault) (e : Expr) (ts : List Task) :
    (ts.foldr relabel (.ofFault fault)).blame e.position =
      .error ⟨fault, some (blamed e ts).position⟩ := by
  induction ts generalizing e with
  | nil => rfl
  | cons t ts ih =>
    cases t with
    | part c =>
      rw [List.foldr_cons, relabel, ih c]
      rfl
    | body b => exact ih e
    | call callee args => exact ih e

end Task

/-- The call of a function by name. -/
def Expr.IsNamedCall (e : Expr) : Prop := ∃ name args pos, e = .call (.named name) args pos

/-- An expression that calls a function calls it by name. -/
theorem Request.isNamedCall {e : Expr} (h : (visit e).calls = true) : e.IsNamedCall := by
  unfold calls at h
  split at h
  · rename_i name args pos heq
    cases heq
    exact ⟨name, args, pos, rfl⟩
  · contradiction
  · cases h

namespace Unwinds

variable {rounds depth : Nat} {r q : Request} {m o : Machine} {ts : List Task} {f : Failure}

/-- If the innermost expression is the body of a function, a call by name is blamed. -/
theorem blamed_isNamedCall (h : Unwinds rounds depth r m ts q o f) {e : Expr} {inBody : Bool}
    (he : r = .visit e ∨ e.IsNamedCall) (hbody : inBody = true → e.IsNamedCall)
    (hts : Task.endsInBody inBody ts = true) : (Task.blamed e ts).IsNamedCall := by
  induction h generalizing e inBody with
  | itself => exact hbody hts
  | @through depth r m t n ts q o f ht h _ ih =>
    have named (hr : r.calls = true) : e.IsNamedCall := by
      rcases he with rfl | he
      · exact Request.isNamedCall hr
      · exact he
    cases t with
    | part c => exact ih (.inl rfl) (fun hbody : false = true => nomatch hbody) hts
    | body b => exact ih (.inr (named ht)) (fun _ => named ht) hts
    | call callee args => exact ih (.inr (named ht)) hbody hts

/-- What fails by itself is the innermost expression, or a call that it makes for a native function. -/
theorem request_eq (h : Unwinds rounds depth r m ts q o f) {e : Expr}
    (he : r = .visit e ∨ ∃ callee args, r = .call callee args) :
    q = .visit (Task.innermost e ts) ∨ ∃ callee args, q = .call callee args := by
  induction h generalizing e with
  | itself => exact he
  | @through depth r m t n ts q o f _ _ _ ih =>
    cases t with
    | part c => exact ih (.inl rfl)
    | body b => exact ih (.inl rfl)
    | call callee args => exact ih (.inr ⟨callee, args, rfl⟩)

end Unwinds

namespace Program

/-- An error is blamed on the innermost part of an expression that is being evaluated when something
fails by itself: a run that ends in an error has come to an expression that unwinds from there, in one
way only, and the place is that of the innermost part. What fails by itself is the innermost
expression, or a call that it makes for a native function. It is the one that is blamed unless it is
the body of a function, by whatever it has been called; then the call by name is blamed through which
this has come about. -/
theorem innermost_part_blamed (limits : Limits) (p : Program) (m : Machine) :
    (∀ fault place m', p.run limits m = .error (.error ⟨fault, place⟩) m' →
      ∃ e n ts q o, p.Reaches limits m e n ∧
        Unwinds limits.rounds limits.depth (.visit e) n.child ts q o (.ofFault fault) ∧
        place = some (Task.blamed e ts).position) ∧
    ∀ e n ts q o fault, p.Reaches limits m e n →
      Unwinds limits.rounds limits.depth (.visit e) n.child ts q o (.ofFault fault) →
      (∃ m', p.run limits m =
        .error (.error ⟨fault, some (Task.blamed e ts).position⟩) m') ∧
      (∀ ts' q' o' f', Unwinds limits.rounds limits.depth (.visit e) n.child ts' q' o' f' →
        ts' = ts ∧ q' = q ∧ o' = o ∧ f' = .ofFault fault) ∧
      (q = .visit (Task.innermost e ts) ∨ ∃ callee args, q = .call callee args) ∧
      (Task.endsInBody false ts = false → Task.blamed e ts = Task.innermost e ts) ∧
      (Task.endsInBody false ts = true → (Task.blamed e ts).IsNamedCall) := by
  constructor
  · intro fault place m' hrun
    obtain ⟨e, n, g, o, hreaches, hvisit, hg, -⟩ := run_error_iff.1 hrun
    have hfinished : g ≠ .exhausted := by
      rintro rfl
      cases hg
    obtain ⟨ts, q, o', f, hts, hf, rfl⟩ := Unwinds.complete (r := .visit e) hvisit hfinished
    cases hf with
    | @fault fault' _ =>
      rw [Task.blame_foldr_relabel] at hg
      cases hg
      exact ⟨e, n, ts, q, o', hreaches, hts, rfl⟩
    | exhausted =>
      rw [Task.foldr_relabel_of_blame (fun _ => rfl)] at hg
      cases hg
    | unencodable =>
      rw [Task.foldr_relabel_of_blame (fun _ => rfl)] at hg
      cases hg
  · intro e n ts q o fault hreaches hts
    obtain ⟨p', hvisit⟩ := hts.sound
    refine ⟨⟨p'.enclosing, run_error_iff.2 ⟨e, n, _, p', hreaches, hvisit, ?_, rfl⟩⟩, ?_, ?_, ?_, ?_⟩
    · exact (Task.blame_foldr_relabel fault e ts).symm
    · exact fun ts' q' o' f' hts' => hts'.unique hts
    · exact hts.request_eq (.inl rfl)
    · exact Task.blamed_eq_innermost fun _ => rfl
    · exact hts.blamed_isNamedCall (.inl rfl) nofun

/-- A native function that `map` calls: its error is blamed on the call of `map`. -/
theorem innermost_part_blamed_mapping :
    let call := Expr.call (.named "map") [.call (.operator .array) [.literal (.int 5) ⟨1, 9, 8⟩]
      ⟨1, 7, 6⟩, .name "parseint" ⟨1, 12, 11⟩] ⟨1, 2, 1⟩
    let p : Program := ⟨.start, [call]⟩
    let m := freshMachine []
    p.run ⟨4, 1⟩ m = .error (.error ⟨.wrongArgument .parseint .string .int, some ⟨1, 2, 1⟩⟩) m ∧
    ∃ e n ts q o, p.Reaches ⟨4, 1⟩ m e n ∧
      Unwinds 1 4 (.visit e) n.child ts q o (.ofFault (.wrongArgument .parseint .string .int)) ∧
      some ⟨1, 2, 1⟩ = some (Task.blamed e ts).position := by
  intro call p m
  exact ⟨rfl, (innermost_part_blamed ⟨4, 1⟩ p m).1 _ _ _ rfl⟩

/-- The body of a function that is called by name: the call is blamed, not the unbound name that the body
is. -/
theorem body_not_blamed : ¬ ∀ (text : List Char) (p : Program) (limits : Limits) (input : Text)
    fault place m' e n ts q o, parse text = .ok p →
    p.run limits (freshMachine input) = .error (.error ⟨fault, place⟩) m' →
    p.Reaches limits (freshMachine input) e n →
    Unwinds limits.rounds limits.depth (.visit e) n.child ts q o (.ofFault fault) →
    place = some (Task.innermost e ts).position := by
  intro h
  let body := Expr.name "y" ⟨1, 18, 17⟩
  let function := Expr.declareAs "f" (.function [] body ⟨1, 9, 8⟩) ⟨1, 2, 1⟩
  let call := Expr.call (.named "f") [] ⟨1, 23, 22⟩
  let p : Program := ⟨.start, [function, call]⟩
  let m := freshMachine []
  let n : Machine := { m with scope := m.scope.modify 0 (·.bind "f" (.function [] body)) }
  have hreaches : p.Reaches ⟨3, 1⟩ m call n := ⟨[function], [], .unit, rfl, rfl⟩
  have hunwinds : Unwinds 1 3 (.visit call) n.child [.body body] (.visit body) n.child.child
      (.ofFault (.noVariable "y")) := by
    refine .through (n := n.child.child) rfl (fun other _ g o hg => ?_)
      (.itself (p := n.child.child) fun _ _ => rfl)
    have hbody : (Eval.declareAll [] >>= fun _ => other.visit body) n.child.child = .error g o :=
      (Eval.bind_ok (x := Eval.declareAll []) rfl _).trans hg
    show other.callNamed "f" [] n.child = _
    rw [callNamed_apply]
    show other.enter [] body [] n.child = _
    rw [enter, Eval.inChild_apply, List.zip_nil_left, hbody]
    rfl
  have hplace := h "(let f (function y)) (f)".toList p ⟨3, 1⟩ [] _ _ _ call n _ _ _ rfl rfl hreaches
    hunwinds
  cases hplace

end Program

end SmallLisp
