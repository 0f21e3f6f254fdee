import SmallLisp.Proofs.Held
import SmallLisp.Proofs.Nodes
import SmallLisp.Proofs.Places
import SmallLisp.Proofs.Unwinding

/-!
# Where errors are reported

An error is reported at a place in the text, whichever stage reports it: the scanner keeps its place, a
token stands where it says, and a node has the place of the token that introduces it. Evaluation blames
nodes alone, since every function that is ever called has a body out of the program
(`Conditions.within_sound`). Main statement: `Program.reported_in_text`.
-/

set_option autoImplicit false

namespace SmallLisp

open Scope Evaluator

/-! ## Texts that are no programs -/

namespace Program

/-- A fault that is reported in place of a program is found by the scanner, and so is a token that
is. -/
theorem mem_results_of_parse {text : List Char} :
    (∀ e, parse text = .error (.lexical e) → .error e ∈ (Cursor.start text).results) ∧
      ∀ e, parse text = .error (.grammar e) → .ok e.found ∈ (Cursor.start text).results := by
  constructor
  · intro e h
    have hstop := stop_of_parse h
    generalize (Cursor.start text).results = ahead at hstop ⊢
    cases hstop with
    | lexical ts e rest => exact List.mem_append_right _ List.mem_cons_self
  · intro e h
    have hstop := stop_of_parse h
    generalize (Cursor.start text).results = ahead at hstop ⊢
    cases hstop with
    | grammar ts rest => exact List.mem_append_right _ List.mem_cons_self

/-- A node of a program that is read from a text stands there. -/
theorem Node.isIn {text : List Char} {p : Program} (hp : parse text = .ok p) {e : Expr}
    (he : p.Node e) : e.position.IsIn text := by
  have hfound := introduction_mem_results hp he
  exact ((Cursor.reported_of_mem_results text).1 e.introduction hfound).isIn

end Program

/-! ## What evaluation blames -/

/-- What is evaluated is a node of a program, and so is the body of every function; errors are blamed on
nodes of it or on nothing yet. -/
def Conditions.within (p : Program) : Conditions where
  expr := p.Node
  value v := ∀ params body, v.callable? = some (.function params body) → p.Node body
  frames _ := True
  fails f := ∀ e place, f = .error e → e.position = some place →
    ∃ node, p.Node node ∧ node.position = place

theorem Conditions.within_sound (p : Program) : (within p).Sound where
  part _ he _ hc := he.part hc
  function params body := by
    refine ⟨fun h => h params body rfl, fun h params' body' heq => ?_⟩
    cases heq
    exact h
  data v _ hcallable params body h := by
    rw [hcallable] at h
    cases h
  callable v callee hv hcallee params body h := by
    refine hv params body (hcallee.trans ?_)
    rw [← h]
    cases callee <;> rfl
  child _ _ := trivial
  outer _ _ _ _ := trivial
  bind _ _ _ _ _ := trivial
  set _ _ _ _ _ := trivial
  fault f _ e place heq hplace := by
    cases heq
    cases hplace
  exhausted e place heq _ := by cases heq
  unencodable e place heq _ := by cases heq
  blame e f he hf := by
    intro err place heq hplace
    cases f with
    | error err' =>
      cases heq
      cases hold : err'.position with
      | none =>
        rw [hold] at hplace
        cases hplace
        exact ⟨e, he, rfl⟩
      | some old =>
        rw [hold] at hplace
        cases hplace
        exact hf err' old rfl hold
    | unencodable => cases heq
    | exhausted => cases heq

namespace Program

/-- On a fresh machine no function is held but native ones. -/
theorem freshMachine_within (p : Program) (input : Text) :
    (Conditions.within p).MetOn (freshMachine input) where
  values := by
    intro f hf b hb
    rw [List.mem_singleton.1 hf] at hb
    obtain ⟨n, -, rfl⟩ := List.mem_map.1 hb
    exact .of_no_items rfl fun _ _ h => by cases h
  frames := trivial

/-- A fresh run blames its errors on nodes of the program. -/
theorem exists_node_of_run {p : Program} {limits : Limits} {input : Text} {e : EvalError}
    {m : Machine} (h : p.run limits (freshMachine input) = .error (.error e) m) :
    ∃ node, p.Node node ∧ e.position = some node.position := by
  have hsound := Conditions.within_sound p
  have hparts : ∀ e ∈ p.exprs, ∀ n, (Conditions.within p).MetOn n →
      (Conditions.within p).terms.asks (.part e) n.child :=
    fun e he n hn => ⟨.expr he, hsound.closed.child n hn⟩
  have hwithin :=
    hsound.lasting.evaluateAll limits.rounds limits.depth hparts (freshMachine_within p input)
  obtain ⟨e', n, g, o, -, -, hblamed, -⟩ := run_error_iff.1 h
  have hplaced : ∃ place, e.position = some place := by
    cases g with
    | error err => cases hblamed; exact ⟨_, rfl⟩
    | unencodable => cases hblamed
    | exhausted => cases hblamed
  obtain ⟨place, hplace⟩ := hplaced
  rw [run, Limits.evaluator] at h
  rw [h] at hwithin
  obtain ⟨node, hnode, rfl⟩ := hwithin.1 e place rfl hplace
  exact ⟨node, hnode, hplace⟩

/-- Every position that is reported is a place in the text, whose line and column can be counted from
there: that of a fault of the scanner; that of a token which does not fit the grammar, where this token
begins; and that of an error of evaluation, which is the place of a node of the program. -/
theorem reported_in_text (text : List Char) :
    (∀ e, parse text = .error (.lexical e) → e.position.IsIn text) ∧
    (∀ e, parse text = .error (.grammar e) → e.position.IsIn text ∧
      e.position = e.found.position ∧ e.found.StandsIn text) ∧
    ∀ p, parse text = .ok p → ∀ limits input e m,
      p.run limits (freshMachine input) = .error (.error e) m →
        ∃ place, e.position = some place ∧ place.IsIn text ∧
          ∃ node, p.Node node ∧ node.position = place := by
  obtain ⟨htokens, hfaults⟩ := Cursor.reported_of_mem_results text
  refine ⟨fun e h => hfaults e (mem_results_of_parse.1 e h), fun e h => ?_, ?_⟩
  · have hfound := htokens e.found (mem_results_of_parse.2 e h)
    exact ⟨hfound.isIn, rfl, hfound⟩
  · intro p hp limits input e m hrun
    obtain ⟨node, hnode, hposition⟩ := exists_node_of_run hrun
    exact ⟨node.position, hposition, hnode.isIn hp, node, hnode, rfl⟩

/-- Three texts of two lines: a string that has no end, a form that breaks off and a division by zero. -/
theorem reported_in_second_line :
    (∃ e, parse "(a\n \"b".toList = .error (.lexical e) ∧ e.position = ⟨2, 4, 6⟩ ∧
      e.position.IsIn "(a\n \"b".toList) ∧
    (∃ e, parse "(if\n a".toList = .error (.grammar e) ∧ e.position = ⟨2, 3, 6⟩ ∧
      e.found.StandsIn "(if\n a".toList) ∧
    let division := Expr.call (.operator .divide)
      [.literal (.int 1) ⟨2, 5, 9⟩, .literal (.int 0) ⟨2, 7, 11⟩] ⟨2, 3, 7⟩
    let p : Program :=
      ⟨.start, [.call (.operator .add) [.literal (.int 1) ⟨1, 4, 3⟩, division] ⟨1, 2, 1⟩]⟩
    parse "(+ 1\n (/ 1 0))".toList = .ok p ∧ ∃ e m,
      p.run ⟨3, 1⟩ (freshMachine []) = .error (.error e) m ∧ e.position = some ⟨2, 3, 7⟩ ∧
        ∃ node, p.Node node ∧ node.position = ⟨2, 3, 7⟩ := by
  refine ⟨⟨_, rfl, rfl, ?_⟩, ⟨_, rfl, rfl, ?_⟩, ?_⟩
  · exact (reported_in_text _).1 _ rfl
  · exact ((reported_in_text _).2.1 _ rfl).2.2
  · intro division p
    have hp : parse "(+ 1\n (/ 1 0))".toList = .ok p := rfl
    have hrun : p.run ⟨3, 1⟩ (freshMachine []) =
        .error (.error ⟨.divisionByZero, some ⟨2, 3, 7⟩⟩) (freshMachine []) := rfl
    obtain ⟨place, hplace, -, hnode⟩ := (reported_in_text _).2.2 p hp ⟨3, 1⟩ [] _ _ hrun
    cases hplace
    exact ⟨hp, _, _, hrun, rfl, hnode⟩

end Program

end SmallLisp
