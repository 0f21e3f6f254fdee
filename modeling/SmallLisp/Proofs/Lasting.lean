import SmallLisp.Proofs.Names
import SmallLisp.Proofs.Terms

/-!
# Terms that last

Terms last for a sort of requests if they are fair to each of these and whatever is asked for is again of
this sort (`Terms.Lasting`). By induction on the depth, every evaluator keeps to such terms
(`Terms.Lasting.ofDepth`), and so do expressions evaluated in turn (`Terms.Lasting.evaluateAll`).

The terms say more about what is asked for than about the frames that it is asked on. A dialogue is
settled by what both it and another account of it allow (`Dialogue.settled`), so an invariant may rest on
the two together and holds throughout an evaluation (`Terms.Lasting.throughout`).
-/

set_option autoImplicit false

namespace SmallLisp

open Scope Evaluator

/-- Terms that are fair to requests of a sort, ask for nothing else, and let failures out. -/
structure Terms.Lasting (T : Terms) (R : Request → Prop) : Prop where
  closed : T.Closed
  fair : ∀ r, R r → T.Fair r
  asked : ∀ t n, T.asks t n → R t.request ∧ T.machine n
  relabel : ∀ t n f, T.asks t n → T.fails f → T.fails (t.relabel f)
  enclosing : ∀ m, T.machine m → T.machine m.enclosing

namespace Terms.Lasting

variable {T : Terms} {R : Request → Prop} (h : T.Lasting R)
include h

theorem leave (t : Task) {m : Machine} (hm : T.machine m) : T.machine (t.leave m) := by
  cases t with
  | part e | body e => exact h.enclosing m hm
  | call callee args => exact hm

theorem run {ev : Evaluator} {t : Task} {n : Machine} (ht : T.asks t n)
    (hw : Outcome.Within T T.value (ev.answer t.request n)) :
    Outcome.Within T T.value (t.run ev n) := by
  rw [Task.run]
  cases ho : ev.answer t.request n with
  | ok v p =>
    rw [ho] at hw
    exact ⟨hw.1, h.leave t hw.2⟩
  | error f p =>
    rw [ho] at hw
    exact ⟨h.relabel t n f ht hw.1, h.leave t hw.2⟩

/-- Lasting terms are kept at any depth. -/
theorem ofDepth (rounds depth : Nat) {r : Request} {m : Machine} (hr : R r) (hm : T.machine m) :
    Outcome.Within T T.value ((ofDepth rounds depth).answer r m) := by
  induction depth generalizing r m with
  | zero => cases r <;> exact ⟨h.closed.exhausted, hm⟩
  | succ depth ih =>
    refine (next_dialogue (h.fair r hr) rounds hm).sound fun t n ht => h.run ht ?_
    obtain ⟨ht, hn⟩ := h.asked t n ht
    exact ih ht hn

/-- What is asked for within the terms comes to a value within them, if it does to any. -/
theorem run_ok (rounds depth : Nat) (t : Task) (n : Machine) (v : Value) (p : Machine)
    (ht : T.asks t n) (hrun : t.run (Evaluator.ofDepth rounds depth) n = .ok v p) :
    T.value v ∧ T.machine p := by
  obtain ⟨hR, hn⟩ := h.asked t n ht
  have hw := h.run ht (h.ofDepth rounds depth hR hn)
  rw [hrun] at hw
  exact hw

/-- An expression that may be evaluated keeps to the terms. -/
theorem evaluate (rounds depth : Nat) {e : Expr} {m : Machine} (he : T.asks (.part e) m.child) :
    Outcome.Within T T.value ((Evaluator.ofDepth rounds depth).evaluate e m) := by
  rw [evaluate_eq_run]
  exact h.run he (h.ofDepth rounds depth (h.asked _ _ he).1 (h.asked _ _ he).2)

/-- Expressions that are evaluated in turn keep to the terms. -/
theorem evaluateAll (rounds depth : Nat) {es : List Expr}
    (hes : ∀ e ∈ es, ∀ n, T.machine n → T.asks (.part e) n.child) {m : Machine} (hm : T.machine m) :
    Outcome.Within T T.value ((Evaluator.ofDepth rounds depth).evaluateAll es m) := by
  have hu := h.closed.unit
  unfold Evaluator.evaluateAll
  generalize Value.unit = u at hu ⊢
  induction es generalizing u m with
  | nil => exact ⟨hu, hm⟩
  | cons e es ih =>
    have he := h.evaluate rounds depth (hes e List.mem_cons_self m hm)
    rw [evaluateAll_cons]
    cases ho : (Evaluator.ofDepth rounds depth).evaluate e m with
    | ok v n =>
      rw [ho] at he
      rw [Eval.bind_ok ho]
      exact ih (fun e he => hes e (List.mem_cons_of_mem _ he)) he.2 v he.1
    | error f n =>
      rw [ho] at he
      rw [Eval.bind_error ho]
      exact he

end Terms.Lasting

/-! ## What machines hold -/

/-- What the variables of other names than this one hold meets a condition. -/
def Machine.HoldsBut (x : String) (P : Value → Prop) (m : Machine) : Prop :=
  ∀ k y v, valueAt m.scope.frames k y = some v → y ≠ x → P v

namespace Machine.HoldsBut

variable {x : String} {P : Value → Prop} {m : Machine}

theorem bind (hm : m.HoldsBut x P) (hops : Nat) (y : String) {v : Value} (hv : P v) :
    HoldsBut x P { m with scope := m.scope.modify hops (·.bind y v) } := by
  intro k z w hw hz
  rw [frames_modify, valueAt_bind, Option.or_eq_some_iff] at hw
  rcases hw with hw | ⟨-, hw⟩
  · exact hm k z w hw hz
  · split at hw
    · cases hw
      exact hv
    · cases hw

theorem set (hm : m.HoldsBut x P) (hops : Nat) (y : String) {v : Value} (hv : P v) :
    HoldsBut x P { m with scope := m.scope.modify hops (·.set y v) } := by
  intro k z w hw hz
  rw [frames_modify, valueAt_set] at hw
  split at hw
  · obtain ⟨u, -, rfl⟩ := Option.map_eq_some_iff.1 hw
    exact hv
  · exact hm k z w hw hz

theorem child (hm : m.HoldsBut x P) : m.child.HoldsBut x P := by
  intro k y v hv hy
  cases k with
  | zero => cases hv
  | succ k => exact hm k y v hv hy

theorem enclosing (hm : m.HoldsBut x P) : m.enclosing.HoldsBut x P := by
  intro k y v hv hy
  rcases m.scope.frames_enclosing_cases with hsame | ⟨-, houter⟩
  · rw [Machine.enclosing, hsame] at hv
    exact hm k y v hv hy
  · rw [Machine.enclosing, houter] at hv
    exact hm (k + 1) y v hv hy

theorem value (hm : m.HoldsBut x P) {y : String} {v : Value} (hv : m.scope.value? y = some v)
    (hy : y ≠ x) : P v := by
  obtain ⟨⟨k, w⟩, hfind, rfl⟩ := Option.map_eq_some_iff.1 hv
  exact hm k y w (findIn_eq_some_iff.1 hfind).1 hy

/-- A fresh machine holds the native functions. -/
theorem freshMachine (h : ∀ f : Native, f.name ≠ x → P (.native f)) (input : Text) :
    (Program.freshMachine input).HoldsBut x P := by
  intro k y v hv hy
  cases k with
  | zero =>
    obtain ⟨b, hb, rfl⟩ := Option.map_eq_some_iff.1 hv
    have hname : b.name = y := by simpa using List.find?_some hb
    obtain ⟨f, -, rfl⟩ := List.mem_map.1 (List.mem_of_find?_eq_some hb)
    exact h f fun hx => hy (hname.symm.trans hx)
  | succ k => cases hv

end Machine.HoldsBut

/-! ## Two accounts of one dialogue -/

namespace Evaluator

section
open Classical

/-- The evaluator that fails so where it is asked for one request on one machine. -/
noncomputable def refusing (lower : Evaluator) (q : Request) (n : Machine) (f : Failure) :
    Evaluator where
  visit e m := if q = .visit e ∧ n = m then .error f m else lower.visit e m
  call callee args m :=
    if q = .call callee args ∧ n = m then .error f m else lower.call callee args m

theorem answer_refusing (lower : Evaluator) (q : Request) (n : Machine) (f : Failure)
    (q' : Request) (n' : Machine) : (lower.refusing q n f).answer q' n' =
      if q = q' ∧ n = n' then .error f n' else lower.answer q' n' := by
  cases q' <;> rfl

end

end Evaluator

namespace Dialogue

variable {T : Terms} {α : Type} {P : α → Prop} {x : Evaluator → Outcome α} {lower : Evaluator}

/-- If the answers to some requests settle a dialogue, what it asks for within its terms is among these
requests, since any answer may be a failure that ends it. So the requests that are both settle it. -/
theorem settled (h : Dialogue T P x)
    (hlower : ∀ t n v p, T.asks t n → t.run lower n = .ok v p → T.value v ∧ T.machine p)
    {U : Request → Machine → Prop}
    (hU : ∀ other : Evaluator, (∀ q n, U q n → other.answer q n = lower.answer q n) →
      x other = x lower) {other : Evaluator}
    (ho : ∀ t n, T.asks t n → U t.request n →
      other.answer t.request n = lower.answer t.request n) : x other = x lower := by
  induction h with
  | ok | error => rfl
  | @ask t n k ht _ ih =>
    have hmem : U t.request n := by
      apply Classical.byContradiction
      intro hno
      have hrefused (f : Failure) : (t.run lower n).andThen (fun v p => k v p lower) =
          .error (t.relabel f) (t.leave n) := by
        have heq := hU (lower.refusing t.request n f) fun q p hq => by
          rw [answer_refusing, if_neg]
          rintro ⟨rfl, rfl⟩
          exact hno hq
        have hf : (lower.refusing t.request n f).answer t.request n = .error f n := by
          rw [answer_refusing, if_pos ⟨rfl, rfl⟩]
        simp only [Task.run_error hf] at heq
        exact heq.symm
      have hsame := (hrefused .exhausted).symm.trans (hrefused .unencodable)
      cases t <;> cases hsame
    have hrun (o : Evaluator) (h : o.answer t.request n = lower.answer t.request n) :
        t.run o n = t.run lower n := by rw [Task.run, Task.run, h]
    cases hr : t.run lower n with
    | error f p => simp only [hrun other (ho t n ht hmem), hr]; rfl
    | ok v p =>
      obtain ⟨hv, hp⟩ := hlower t n v p ht hr
      have hrest := ih v p hv hp fun o ho' => by
        have heq := hU o ho'
        simp only [hrun o (ho' _ _ hmem), hr] at heq
        exact heq
      simp only [hrun other (ho t n ht hmem), hr]
      exact hrest

end Dialogue

/-- A level of nesting answers a request within lasting terms as if the level below could answer
nothing else. -/
theorem Terms.Lasting.answer_restrict {T : Terms} {R : Request → Prop} (h : T.Lasting R)
    (rounds depth : Nat) {r : Request} {m : Machine} (hr : R r) (hm : T.machine m) :
    (((Evaluator.ofDepth rounds depth).restrict fun q n => R q ∧ T.machine n).next rounds).answer r m =
      (Evaluator.ofDepth rounds (depth + 1)).answer r m := by
  refine (next_dialogue (h.fair r hr) rounds hm).settled (U := fun _ _ => True)
    (h.run_ok rounds depth) ?_ ?_
  · intro other ho
    have hvisit : other.visit = (Evaluator.ofDepth rounds depth).visit :=
      funext fun e => funext fun n => ho (.visit e) n trivial
    have hcall : other.call = (Evaluator.ofDepth rounds depth).call :=
      funext fun callee => funext fun args => funext fun n => ho (.call callee args) n trivial
    have heq : other = Evaluator.ofDepth rounds depth := by
      show Evaluator.mk other.visit other.call = _
      rw [hvisit, hcall]
    rw [heq]
  · exact fun t n ht _ => answer_restrict_of (h.asked t n ht)

/-- What lasting terms and the frames that are handed down say together holds throughout an evaluation,
if it holds of what is asked for once it holds of what asks. -/
theorem Terms.Lasting.throughout {T : Terms} {R : Request → Prop} (h : T.Lasting R) {rounds : Nat}
    {I : Request → Machine → Prop} {S : Evaluator → Request → Machine → Prop}
    (hI : ∀ q n, I q n → R q ∧ T.machine n)
    (hask : ∀ q n t n', I q n → q.Asks anyVariable n t.request n' → T.asks t n' → I t.request n')
    (hS : ∀ depth q n, I q n → S (Evaluator.ofDepth rounds depth) q n) (depth : Nat) {r : Request}
    {m : Machine} (hr : I r m) : Throughout rounds S depth r m := by
  refine .of_settled (fun depth q n hq other ho => ?_) hS depth hr
  obtain ⟨hR, hn⟩ := hI q n hq
  refine (next_dialogue (h.fair q hR) rounds hn).settled (U := q.Asks anyVariable n)
    (h.run_ok rounds depth) ?_ ?_
  · exact fun other ho => (next_settled rounds (ofDepth_scoped rounds depth) q n ho
      fun _ _ _ _ _ _ _ => trivial).1
  · exact fun t n' ht hasks => ho _ _ (hask q n t n' hq hasks ht)

end SmallLisp
