import SmallLisp.Proofs.Scoping

/-!
# Limits that are far enough

An evaluation either gives up at its limits or comes to what it comes to at any limits beyond them.
`Evaluator.next_agrees` says so of one level of nesting given the level below, and
`Evaluator.ofDepth_agrees` of every depth. Main statement: `Program.run_of_le`, a run that has not
given up is the same at higher limits.
-/

set_option autoImplicit false

namespace SmallLisp

/-- An evaluation has gone beyond its limits. -/
def Outcome.GivesUp {α : Type} (o : Outcome α) : Prop := ∃ m, o = .error .exhausted m

/-- The second computation comes to what the first one does unless that one gives up. -/
def Eval.Agrees {α : Type} (x y : Eval α) : Prop := Eval.Alike True Eq x y

namespace Eval.Agrees

variable {α : Type} {x y : Eval α}

theorem eq_of_not_givesUp (h : Agrees x y) {m : Machine} (hm : ¬ Outcome.GivesUp (x m)) :
    y m = x m := by
  have halike := h (Eq.refl m)
  generalize x m = o at hm halike ⊢
  generalize y m = p at halike ⊢
  cases halike with
  | ok h' => rw [h']
  | error h' => rw [h']
  | exhausted => exact absurd ⟨_, rfl⟩ hm

theorem of_eq (h : ∀ m, x m = y m) : Agrees x y := by
  rintro m _ rfl
  rw [h m]
  cases y m with
  | ok => exact .ok rfl
  | error => exact .error rfl

theorem trans {z : Eval α} (h : Agrees x y) (h' : Agrees y z) : Agrees x z := by
  rintro m _ rfl
  by_cases hm : Outcome.GivesUp (x m)
  · obtain ⟨n, hn⟩ := hm
    rw [hn]
    exact .exhausted trivial
  · have hy := h.eq_of_not_givesUp hm
    have hz := h'.eq_of_not_givesUp (m := m) (by rwa [hy])
    rw [hz, hy]
    cases x m with
    | ok => exact .ok rfl
    | error => exact .error rfl

end Eval.Agrees

theorem Transparent.eq : Transparent Eq where
  value := by
    rintro m _ rfl x
    rfl
  console := by
    rintro m _ rfl
    rfl
  talk := by
    rintro m _ rfl c
    rfl

namespace Evaluator

section
variable {a b : Evaluator} (h : ∀ q, Eval.Agrees (a.answer q) (b.answer q))
include h

theorem evaluate_agrees (e : Expr) : Eval.Agrees (a.evaluate e) (b.evaluate e) := by
  refine Eval.Alike.blaming (Eval.Alike.inChild (h (.visit e)) ?_ ?_) _
  · rintro m _ rfl
    rfl
  · rintro m _ rfl
    rfl

theorem enter_agrees (params : List String) (body : Expr) (args : List Value) :
    Eval.Agrees (a.enter params body args) (b.enter params body args) := by
  have hdeclare : Eval.Agrees (Eval.declareAll (params.zip args))
      (Eval.declareAll (params.zip args)) := .of_eq fun _ => rfl
  refine Eval.Alike.inChild (hdeclare.bind fun _ => h (.visit body)) ?_ ?_
  · rintro m _ rfl
    rfl
  · rintro m _ rfl
    rfl

theorem callNext_agrees (callee : Callable) (args : List Value) :
    Eval.Agrees (a.callNext callee args) (b.callNext callee args) :=
  callNext_alike Transparent.eq.sameConsole (fun callee args => h (.call callee args)) callee args
    fun params body _ => enter_agrees h params body args

theorem storing_agrees (hops : Nat) (x : String) (e : Expr) :
    Eval.Agrees (a.storing hops x e) (b.storing hops x e) := by
  have hwrite (v : Value) : Eval.Agrees (Eval.write hops x v) (Eval.write hops x v) :=
    .of_eq fun _ => rfl
  exact (evaluate_agrees h e).bind fun v => (hwrite v).bind fun _ => .pure _

/-- A level of nesting with more rounds agrees if the level below does. -/
theorem next_agrees {rounds rounds' : Nat} (hrounds : rounds ≤ rounds') (q : Request) :
    Eval.Agrees ((a.next rounds).answer q) ((b.next rounds').answer q) := by
  cases q with
  | call callee args => exact callNext_agrees h callee args
  | visit e =>
    show Eval.Agrees (a.visitNext rounds e) (b.visitNext rounds' e)
    by_cases he : e.declares? ≠ none ∨ e.assigns? ≠ none
    · rintro m _ rfl
      rcases visitNext_cases he m with ⟨f, hrefused⟩ | ⟨x, -, hnew⟩ | ⟨c, s, hops, x, hstores⟩
      · rw [hrefused, hrefused]
        exact .error rfl
      · rw [hnew, hnew]
        exact .ok rfl
      · rw [visitNext_of_stores a rounds hstores, visitNext_of_stores b rounds' hstores]
        exact storing_agrees h hops x c rfl
    · rw [not_or, Classical.not_not, Classical.not_not] at he
      exact visitNext_alike (fun x _ => Transparent.eq.sameValue x) hrounds (.inl trivial) he.1 he.2
        (fun c _ => evaluate_agrees h c) fun _ _ => callNext_agrees h

theorem evaluateAll_agrees (es : List Expr) : Eval.Agrees (a.evaluateAll es) (b.evaluateAll es) :=
  Eval.Alike.foldlM (fun _ e _ => evaluate_agrees h e) _

end

/-- What is not beyond the limits stays the same when they are higher. -/
theorem ofDepth_agrees {rounds rounds' depth depth' : Nat} (hrounds : rounds ≤ rounds')
    (hdepth : depth ≤ depth') (q : Request) :
    Eval.Agrees ((ofDepth rounds depth).answer q) ((ofDepth rounds' depth').answer q) := by
  induction depth generalizing depth' q with
  | zero =>
    intro m n _
    cases q <;> exact .exhausted trivial
  | succ depth ih =>
    obtain ⟨lower, rfl⟩ : ∃ lower, depth' = lower + 1 := ⟨depth' - 1, by omega⟩
    exact next_agrees (fun q => ih (Nat.le_of_succ_le_succ hdepth) q) hrounds q

end Evaluator

/-- A run that has not given up comes to the same at higher limits. -/
theorem Program.run_of_le {limits limits' : Limits} (hdepth : limits.depth ≤ limits'.depth)
    (hrounds : limits.rounds ≤ limits'.rounds) {p : Program} {m : Machine}
    (hrun : ¬ Outcome.GivesUp (p.run limits m)) : p.run limits' m = p.run limits m := by
  have hlevels := Evaluator.ofDepth_agrees hrounds hdepth
  exact (Evaluator.evaluateAll_agrees hlevels p.exprs).eq_of_not_givesUp hrun

end SmallLisp
