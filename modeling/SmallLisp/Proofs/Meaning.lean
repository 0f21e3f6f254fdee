import SmallLisp.Proofs.Limits

/-!
# What an expression comes to

Apart from its limits, an evaluation either goes on for ever or comes to an outcome: a value or a
failure, and the machine afterwards. It goes on for ever if it gives up at all limits, and otherwise
comes to the same at all limits that are far enough. Two expressions are the same on a machine if both
go on for ever there or both come to the same (`Expr.SameOn`); it is enough that whatever either comes to
at some limits the other comes to at others (`Expr.SameOn.of_agrees`). Of runs of programs the same is
said.
-/

set_option autoImplicit false

namespace SmallLisp

/-- How an expression is evaluated at some limits. -/
def Limits.evaluate (limits : Limits) (e : Expr) (m : Machine) : Outcome Value :=
  limits.evaluator.evaluate e m

namespace Expr

/-- The evaluation of an expression gives up at all limits. -/
def Diverges (e : Expr) (m : Machine) : Prop := ∀ limits : Limits, (limits.evaluate e m).GivesUp

/-- What the evaluation of an expression comes to at all limits from some on. -/
def ComesTo (e : Expr) (m : Machine) (o : Outcome Value) : Prop :=
  ¬ o.GivesUp ∧ ∃ enough : Limits, ∀ limits : Limits, enough.depth ≤ limits.depth →
    enough.rounds ≤ limits.rounds → limits.evaluate e m = o

/-- Two expressions come to the same on a machine, or neither comes to anything. -/
def SameOn (m : Machine) (e e' : Expr) : Prop :=
  (e.Diverges m ∧ e'.Diverges m) ∨ ∃ o, e.ComesTo m o ∧ e'.ComesTo m o

variable {e e' : Expr} {m : Machine}

theorem comesTo_of_not_givesUp {limits : Limits} (h : ¬ (limits.evaluate e m).GivesUp) :
    e.ComesTo m (limits.evaluate e m) := by
  refine ⟨h, limits, fun limits' hdepth hrounds => ?_⟩
  have hlevels := Evaluator.ofDepth_agrees hrounds hdepth
  exact (Evaluator.evaluate_agrees hlevels e).eq_of_not_givesUp h

/-- An expression comes to one thing at most. -/
theorem ComesTo.eq {o o' : Outcome Value} (h : e.ComesTo m o) (h' : e.ComesTo m o') : o = o' := by
  obtain ⟨-, enough, ho⟩ := h
  obtain ⟨-, enough', ho'⟩ := h'
  let limits : Limits := ⟨max enough.depth enough'.depth, max enough.rounds enough'.rounds⟩
  have hfirst : limits.evaluate e m = o := ho limits (Nat.le_max_left _ _) (Nat.le_max_left _ _)
  have hsecond : limits.evaluate e m = o' := ho' limits (Nat.le_max_right _ _) (Nat.le_max_right _ _)
  exact hfirst.symm.trans hsecond

/-- What comes to something does not diverge. -/
theorem ComesTo.not_diverges {o : Outcome Value} (h : e.ComesTo m o) : ¬ e.Diverges m := by
  obtain ⟨hfinished, enough, ho⟩ := h
  intro hdiverges
  have hgives := hdiverges enough
  rw [ho enough (Nat.le_refl _) (Nat.le_refl _)] at hgives
  exact hfinished hgives

theorem SameOn.of_agrees
    (h : ∀ limits : Limits, ∃ limits' : Limits,
      Eval.Agrees (limits.evaluate e) (limits'.evaluate e'))
    (h' : ∀ limits : Limits, ∃ limits' : Limits,
      Eval.Agrees (limits.evaluate e') (limits'.evaluate e)) : SameOn m e e' := by
  by_cases hdiverges : e.Diverges m
  · refine .inl ⟨hdiverges, fun limits => ?_⟩
    apply Classical.byContradiction
    intro hfinished
    obtain ⟨limits', hagrees⟩ := h' limits
    have hgives := hdiverges limits'
    rw [hagrees.eq_of_not_givesUp hfinished] at hgives
    exact hfinished hgives
  · obtain ⟨limits, hfinished⟩ := Classical.not_forall.1 hdiverges
    obtain ⟨limits', hagrees⟩ := h limits
    have heq := hagrees.eq_of_not_givesUp hfinished
    have hsecond : e'.ComesTo m (limits'.evaluate e' m) :=
      comesTo_of_not_givesUp (by rwa [heq])
    rw [heq] at hsecond
    exact .inr ⟨_, comesTo_of_not_givesUp hfinished, hsecond⟩

end Expr

namespace Program

/-- A run of a program gives up at all limits. -/
def Diverges (p : Program) (m : Machine) : Prop := ∀ limits : Limits, (p.run limits m).GivesUp

/-- What a run of a program comes to at all limits from some on. -/
def ComesTo (p : Program) (m : Machine) (o : Outcome Value) : Prop :=
  ¬ o.GivesUp ∧ ∃ enough : Limits, ∀ limits : Limits, enough.depth ≤ limits.depth →
    enough.rounds ≤ limits.rounds → p.run limits m = o

theorem comesTo_of_not_givesUp {p : Program} {limits : Limits} {m : Machine}
    (h : ¬ (p.run limits m).GivesUp) : p.ComesTo m (p.run limits m) :=
  ⟨h, limits, fun _ hdepth hrounds => run_of_le hdepth hrounds h⟩

end Program

end SmallLisp
