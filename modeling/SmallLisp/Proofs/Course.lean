import SmallLisp.Proofs.Scoping

/-!
# What happens in the course of an evaluation

`Throughout rounds S depth r m`: `S` holds of every request that is made in the course of answering
`r` on `m`, itself included. An evaluator is a function and keeps no record of what it asks; but a
level of nesting has asked for nothing outside a set of requests if its answer stays the same however
others than these are answered (`Evaluator.SettledBy`), since any answer may be a failure that ends the
evaluation.

* `Throughout.of_course`: every request is made on a machine with the frames there were at first, apart
  from fresh ones in front (`Request.Course`).
* `Throughout.evolves`: a variable that nothing writes throughout stays as it is.
-/

set_option autoImplicit false

namespace SmallLisp

open Scope

namespace Evaluator

/-- The next level answers a request by the answers to the requests in this set alone. -/
def SettledBy (rounds : Nat) (lower : Evaluator) (T : Request → Machine → Prop) (r : Request)
    (m : Machine) : Prop :=
  ∀ other : Evaluator, (∀ q n, T q n → other.answer q n = lower.answer q n) →
    (other.next rounds).answer r m = (lower.next rounds).answer r m

/-- A request whose answer makes a difference is in the set. -/
theorem SettledBy.mem_of_differs {rounds : Nat} {lower other : Evaluator}
    {T : Request → Machine → Prop} {r q : Request} {m n : Machine}
    (h : SettledBy rounds lower T r m)
    (ho : ∀ q' n', ¬(q' = q ∧ n' = n) → other.answer q' n' = lower.answer q' n')
    (hne : (other.next rounds).answer r m ≠ (lower.next rounds).answer r m) : T q n := by
  apply Classical.byContradiction
  intro hT
  refine hne (h other fun q' n' hq' => ho q' n' ?_)
  rintro ⟨rfl, rfl⟩
  exact hT hq'

end Evaluator

open Evaluator

/-- A property of every request in the course of an evaluation, and of the level below the one that
answers it. -/
def Throughout (rounds : Nat) (S : Evaluator → Request → Machine → Prop) :
    Nat → Request → Machine → Prop
  | 0, _, _ => True
  | depth + 1, r, m => S (ofDepth rounds depth) r m ∧
      SettledBy rounds (ofDepth rounds depth) (Throughout rounds S depth) r m

/-- A property of every request in the course of evaluating some expressions in turn. -/
def ThroughoutAll (rounds : Nat) (S : Evaluator → Request → Machine → Prop) (depth : Nat) :
    List Expr → Machine → Prop
  | [], _ => True
  | e :: es, m => Throughout rounds S depth (.visit e) m.child ∧
      ∀ v n, (ofDepth rounds depth).evaluate e m = .ok v n → ThroughoutAll rounds S depth es n

/-! ## Where requests are made -/

/-- The frames of a machine, evolved, behind so many others. -/
def Machine.Within (k : Nat) (m n : Machine) : Prop :=
  Evolves m.scope.frames.length none anyVariable m.scope.frames (n.scope.frames.drop k)

/-- What can be a request in the course of another: it is that request itself, or is made further in,
or is a call that a native function makes. -/
def Request.Course (r : Request) (m : Machine) (q : Request) (n : Machine) : Prop :=
  ∃ k, m.Within k n ∧ (0 < k ∨ (q = r ∧ n = m) ∨ ∃ callee args, q = .call callee args)

theorem Request.Course.refl (r : Request) (m : Machine) : r.Course m r m :=
  ⟨0, .refl .., .inr (.inl ⟨rfl, rfl⟩)⟩

theorem Machine.Within.trans {k j : Nat} {m n : Machine} {gs : List Frame} (h : m.Within k n)
    (hev : Evolves j none anyVariable n.scope.frames gs) :
    Evolves m.scope.frames.length none anyVariable m.scope.frames (gs.drop k) := by
  have hdrop := (hev.drop k).saturate
  rw [h.length] at hdrop
  exact Evolves.trans h hdrop

theorem Request.Course.ask {r q q' : Request} {m n n' : Machine} (h : r.Course m q n)
    (ha : q.Asks anyVariable n q' n') : r.Course m q' n' := by
  obtain ⟨k, hk, -⟩ := h
  cases ha with
  | part hc hev => exact ⟨k + 1, hk.trans hev, .inl (Nat.succ_pos k)⟩
  | body hn hev => exact ⟨k + 1, hk.trans hev, .inl (Nat.succ_pos k)⟩
  | call hev => exact ⟨k, hk.trans hev, .inr (.inr ⟨_, _, rfl⟩)⟩

/-- What settles every one of some requests by others of them holds of all that are made. -/
theorem Throughout.of_settled {rounds : Nat} {S : Evaluator → Request → Machine → Prop}
    {I : Request → Machine → Prop}
    (hI : ∀ depth q n, I q n → SettledBy rounds (ofDepth rounds depth) I q n)
    (hS : ∀ depth q n, I q n → S (ofDepth rounds depth) q n) (depth : Nat) {r : Request}
    {m : Machine} (hr : I r m) : Throughout rounds S depth r m := by
  induction depth generalizing r m with
  | zero => trivial
  | succ depth ih =>
    exact ⟨hS depth r m hr, fun other ho => hI depth r m hr other fun q n hq => ho q n (ih hq)⟩

/-- What holds in the course of each of some expressions, on any machine that those before it may have
left, holds in the course of all in turn. -/
theorem ThroughoutAll.of_kept {rounds depth : Nat} {S : Evaluator → Request → Machine → Prop}
    {J : Machine → Prop} {es : List Expr}
    (heach : ∀ e ∈ es, ∀ n, J n → Throughout rounds S depth (.visit e) n.child)
    (hkept : ∀ e ∈ es, ∀ n v p, J n → (ofDepth rounds depth).evaluate e n = .ok v p → J p)
    {m : Machine} (hm : J m) : ThroughoutAll rounds S depth es m := by
  induction es generalizing m with
  | nil => trivial
  | cons e es ih =>
    refine ⟨heach e List.mem_cons_self m hm, fun v n ho => ih ?_ ?_ ?_⟩
    · exact fun e he => heach e (List.mem_cons_of_mem _ he)
    · exact fun e he => hkept e (List.mem_cons_of_mem _ he)
    · exact hkept e List.mem_cons_self m v n hm ho

theorem Throughout.of_course {rounds : Nat} {S : Evaluator → Request → Machine → Prop}
    {r : Request} {m : Machine}
    (hS : ∀ depth q n, r.Course m q n → S (ofDepth rounds depth) q n) (depth : Nat) :
    Throughout rounds S depth r m := by
  refine .of_settled (fun depth q n hq other ho => ?_) hS depth (.refl r m)
  exact (next_settled rounds (ofDepth_scoped rounds depth) q n
    (fun q' n' ha => ho q' n' (hq.ask ha)) fun _ _ _ _ _ _ _ => trivial).1

/-! ## What nothing writes -/

namespace Evaluator

/-- A request writes at most these variables, by the depth of their frame. -/
def WritesOnly (W : Nat → String → Prop) (lower : Evaluator) (q : Request) (n : Machine) : Prop :=
  ∀ e hops x v p, q = .visit e → lower.Writes n e hops x v p → W (depthAt n.scope.frames hops) x

section
open Classical

/-- The evaluator that gives up where it is asked for anything else than this. -/
noncomputable def restrict (lower : Evaluator) (T : Request → Machine → Prop) : Evaluator where
  visit e m := if T (.visit e) m then lower.visit e m else .error .exhausted m
  call callee args m :=
    if T (.call callee args) m then lower.call callee args m else .error .exhausted m

theorem answer_restrict (lower : Evaluator) (T : Request → Machine → Prop) (q : Request)
    (n : Machine) : (lower.restrict T).answer q n =
      if T q n then lower.answer q n else .error .exhausted n := by
  cases q <;> rfl

end

variable {lower : Evaluator} {T : Request → Machine → Prop}

theorem answer_restrict_of {q : Request} {n : Machine} (h : T q n) :
    (lower.restrict T).answer q n = lower.answer q n := by
  rw [answer_restrict, if_pos h]

theorem evaluate_of_restrict {e : Expr} {m n : Machine} {v : Value}
    (h : (lower.restrict T).evaluate e m = .ok v n) : lower.evaluate e m = .ok v n := by
  by_cases hT : T (.visit e) m.child
  · rwa [evaluate_eq_of_visit (answer_restrict_of hT)] at h
  · have hvisit : (lower.restrict T).visit e m.child = .error .exhausted m.child :=
      (answer_restrict lower T (.visit e) m.child).trans (if_neg hT)
    rw [evaluate, Eval.blaming, Eval.inChild_apply, hvisit] at h
    cases h

theorem writes_of_restrict {m n : Machine} {e : Expr} {hops : Nat} {x : String} {v : Value}
    (h : (lower.restrict T).Writes m e hops x v n) : lower.Writes m e hops x v n := by
  obtain ⟨c, s, hstores, hv⟩ := h
  exact ⟨c, s, hstores, evaluate_of_restrict hv⟩

end Evaluator

/-- Frames evolve by what is written in the course of an evaluation. -/
theorem Throughout.evolves {rounds depth : Nat} {W : Nat → String → Prop} {r : Request}
    {m : Machine} (h : Throughout rounds (WritesOnly W) depth r m) :
    Evolves r.reach r.exposed W m.scope.frames
      (((ofDepth rounds depth).answer r).after m).scope.frames := by
  induction depth generalizing r m with
  | zero => cases r <;> exact .refl ..
  | succ depth ih =>
    obtain ⟨hwrites, hsettled⟩ := h
    have hscoped : ((ofDepth rounds depth).restrict (Throughout rounds (WritesOnly W) depth)).Scoped
        W := by
      intro q n
      by_cases hq : Throughout rounds (WritesOnly W) depth q n
      · have := ih hq
        rwa [Eval.after, ← answer_restrict_of hq] at this
      · rw [Eval.after, answer_restrict, if_neg hq]
        exact .refl ..
    have heq := hsettled _ fun q n hq => answer_restrict_of hq
    have hnext := (next_settled rounds hscoped r m (fun _ _ _ => rfl)
      fun e hops x v n he hw => hwrites e hops x v n he (writes_of_restrict hw)).2
    rwa [Eval.after, heq] at hnext

/-- A variable that nothing writes while an expression is evaluated stays as it is. -/
theorem Throughout.kept {rounds depth : Nat} {e : Expr} {m : Machine} {k : Nat} {x : String}
    {v : Value} (h : Throughout rounds
      (WritesOnly fun d y => ¬(d = depthAt m.scope.frames k ∧ y = x)) depth (.visit e) m.child)
    (hv : valueAt m.scope.frames k x = some v) :
    valueAt (((ofDepth rounds depth).evaluate e).after m).scope.frames k x = some v := by
  have hev := Eval.inChild_evolves h.evolves
  rw [evaluate, Eval.after_blaming]
  exact hev.kept hv fun hw => hw ⟨rfl, rfl⟩

end SmallLisp
