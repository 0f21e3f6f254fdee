import SmallLisp.Proofs.Names
import SmallLisp.Proofs.Terms

/-!
# How a failure comes out

When a run fails, some request has failed by itself, and every other one that was in progress has
failed by what it had asked for. `Unwinds` lists these tasks from the outside in. Whatever it holds of
fails, whatever fails within its limits unwinds, and in one way only (`Unwinds.sound`,
`Unwinds.complete`, `Unwinds.unique`). A run fails as the expression does that it has come to
(`Program.run_error_iff`).

An evaluator keeps no record of what is in progress. That a request fails by itself, or by a task that it
has asked for, is said by what would become of it if what fails below failed otherwise (`FailsItself`,
`FailsBy`): the task that is to blame hands on any failure, and a request that fails by itself none.
-/

set_option autoImplicit false

namespace SmallLisp

open Evaluator

/-- The tasks that a request may have done: its parts, and bodies and calls if it calls something. -/
def Task.Of (r : Request) : Task → Prop
  | .part c => c ∈ r.parts
  | .body _ | .call _ _ => r.calls = true

/-- How a request may fail by itself: with a genuine fault that blames nothing yet, at its limits, or
because a comparison needs a UTF-8 form that is not there. -/
inductive Request.Raises (r : Request) : Failure → Prop
  | fault {f : Fault} (h : f.Genuine) : Raises r (.ofFault f)
  | exhausted : Raises r .exhausted
  | unencodable {rel : Relation} (h : r.relates = some rel) : Raises r .unencodable

/-- A request fails by these tasks, each of them by the next one, and the last by a request that fails
by itself: for which reason, and on which machine. -/
inductive Unwinds (rounds : Nat) :
    Nat → Request → Machine → List Task → Request → Machine → Failure → Prop
  | itself {depth : Nat} {r : Request} {m : Machine} {f : Failure} {p : Machine}
      (h : FailsItself (ofDepth rounds depth) (fun ev => (ev.next rounds).answer r m) f p) :
      Unwinds rounds (depth + 1) r m [] r m f
  | through {depth : Nat} {r : Request} {m : Machine} {t : Task} {n : Machine} {ts : List Task}
      {q : Request} {o : Machine} {f : Failure} (ht : t.Of r)
      (h : FailsBy (ofDepth rounds depth) (fun ev => (ev.next rounds).answer r m) t n)
      (hrest : Unwinds rounds depth t.request n ts q o f) :
      Unwinds rounds (depth + 1) r m (t :: ts) q o f

/-! ## What one level asks for -/

/-- One level fails by itself or by a task that is the request's. -/
theorem Evaluator.next_fails (rounds : Nat) {lower : Evaluator} {r : Request} {m : Machine}
    {f : Failure} {p : Machine} (h : (lower.next rounds).answer r m = .error f p) :
    (r.Raises f ∧ FailsItself lower (fun ev => (ev.next rounds).answer r m) f p) ∨
      ∃ t n g o, t.Of r ∧ lower.answer t.request n = .error g o ∧
        FailsBy lower (fun ev => (ev.next rounds).answer r m) t n := by
  have hclosed : (Terms.ofTasks (fun t _ => t.Of r) r.Raises).Closed :=
    Terms.ofTasks_closed (fun _ => .fault) .exhausted
  have hfair : (Terms.ofTasks (fun t _ => t.Of r) r.Raises).Fair r :=
    { hclosed with
      given := fun _ _ _ => ⟨trivial, fun _ _ => trivial⟩
      function := fun _ _ _ _ => trivial
      lookup := fun _ _ _ _ _ _ => trivial
      relate := fun rel a b f hrel _ _ hf => by
        rcases Value.relate_error hf with ⟨fault, rfl, hfault⟩ | rfl
        · exact .fault hfault
        · exact .unencodable hrel
      part := fun c hc _ _ => hc
      body := fun _ _ _ hcalls _ _ => hcalls
      call := fun _ _ _ hcalls _ _ _ => hcalls }
  exact (next_dialogue hfair rounds trivial).fails (fun _ _ _ _ _ _ => ⟨trivial, trivial⟩) h

/-! ## One reason at a time -/

namespace Evaluator

variable {lower : Evaluator}

theorem Extends.refl (lower : Evaluator) : lower.Extends lower := fun _ _ _ _ h => h

theorem evaluate_error_iff {ev : Evaluator} {e : Expr} {m p : Machine} {f : Failure} :
    ev.evaluate e m = .error f p ↔ ∃ g o, ev.visit e m.child = .error g o ∧
      f = g.blame e.position ∧ p = o.enclosing := by
  rw [evaluate, Eval.blaming, Eval.inChild_apply]
  cases ev.visit e m.child with
  | ok v o => simp
  | error g o =>
    constructor
    · intro h
      cases h
      exact ⟨g, o, rfl, rfl, rfl⟩
    · rintro ⟨g', o', h, rfl, rfl⟩
      cases h
      rfl

/-- The evaluator that fails where another one does, but for these reasons. -/
def failing (lower : Evaluator) (reason : Request → Machine → Failure) : Evaluator where
  visit e m :=
    match lower.visit e m with
    | .ok v p => .ok v p
    | .error _ p => .error (reason (.visit e) m) p
  call callee args m :=
    match lower.call callee args m with
    | .ok v p => .ok v p
    | .error _ p => .error (reason (.call callee args) m) p

theorem answer_failing (reason : Request → Machine → Failure) (q : Request) (n : Machine) :
    (lower.failing reason).answer q n =
      match lower.answer q n with
      | .ok v p => .ok v p
      | .error _ p => .error (reason q n) p := by
  cases q <;> rfl

theorem failing_extends (reason : Request → Machine → Failure) :
    (lower.failing reason).Extends lower := by
  intro q n v p h
  rw [answer_failing, h]

end Evaluator

section
variable {α : Type} {lower : Evaluator} {x : Evaluator → Outcome α} {t t' : Task} {n n' : Machine}

/-- What a failure below for another reason makes of a computation. -/
theorem FailsBy.failing (h : FailsBy lower x t n) {g : Failure} {o : Machine}
    (hg : lower.answer t.request n = .error g o) (reason : Request → Machine → Failure) :
    x (lower.failing reason) = .error (t.relabel (reason t.request n)) (t.leave o) := by
  refine h _ (failing_extends reason) _ _ ?_
  rw [answer_failing, hg]

/-- A computation that fails by a task does not fail by itself. -/
theorem FailsBy.not_itself (h : FailsBy lower x t n) {g : Failure} {o : Machine}
    (hg : lower.answer t.request n = .error g o) {f : Failure} {p : Machine} :
    ¬ FailsItself lower x f p := by
  intro hitself
  have hrelabel (e : Failure) : f = t.relabel e := by
    have hx := h.failing hg fun _ _ => e
    rw [hitself _ (failing_extends _)] at hx
    cases hx
    rfl
  have hexhausted := hrelabel .exhausted
  have hunencodable := hrelabel .unencodable
  rw [hexhausted] at hunencodable
  cases t <;> cases hunencodable

/-- A computation fails by one task only. -/
theorem FailsBy.unique (h : FailsBy lower x t n) (h' : FailsBy lower x t' n') {g g' : Failure}
    {o o' : Machine} (hg : lower.answer t.request n = .error g o)
    (hg' : lower.answer t'.request n' = .error g' o') : t = t' ∧ n = n' := by
  classical
  have hsame : t.request = t'.request ∧ n = n' := by
    apply Classical.byContradiction
    intro hother
    let reason (q : Request) (k : Machine) : Failure :=
      if t.request = q ∧ n = k then .exhausted else .unencodable
    have hx := h.failing hg reason
    rw [h'.failing hg' reason] at hx
    simp only [reason, if_neg hother, and_self, if_true] at hx
    cases t <;> cases t' <;> cases hx
  refine ⟨?_, hsame.2⟩
  have hx := h.failing hg fun _ _ => .ofFault .divisionByZero
  rw [h'.failing hg' _] at hx
  obtain ⟨hrequest, -⟩ := hsame
  -- A part and a body are one request, but a part takes the blame.
  cases t <;> cases t' <;> cases hrequest
  all_goals first | rfl | cases hx

/-- A computation that goes on from a part that has failed has failed by it. -/
theorem FailsBy.of_evaluate {x : Evaluator → Outcome Value} {k : Evaluator → Value → Eval Value}
    {c : Expr} {n : Machine} (hx : ∀ other : Evaluator, other.Extends lower →
      x other = (other.evaluate c >>= k other) n) : FailsBy lower x (.part c) n.child := by
  intro other hother g p hg
  have hc : other.evaluate c n = .error ((Task.part c).relabel g) ((Task.part c).leave p) :=
    (other.evaluate_eq_run c n).trans (Task.run_error hg)
  rw [hx other hother, Eval.bind_error hc]

theorem Evaluator.Extends.evaluate {other : Evaluator} (h : other.Extends lower) {e : Expr}
    {m n : Machine} {v : Value} (he : lower.evaluate e m = .ok v n) :
    other.evaluate e m = .ok v n := by
  rw [evaluate_eq_run, Task.run] at he
  cases ho : lower.answer (Task.part e).request m.child with
  | ok w p =>
    rw [ho] at he
    rw [evaluate_eq_run, Task.run_ok (h _ _ _ _ ho)]
    exact he
  | error g p =>
    rw [ho] at he
    cases he

/-- A computation that fails by itself has not failed by a part. -/
theorem FailsItself.evaluate_ok {x : Evaluator → Outcome Value} {f : Failure} {p : Machine}
    (h : FailsItself lower x f p) {k : Evaluator → Value → Eval Value} {c : Expr} {n : Machine}
    (hx : ∀ other : Evaluator, other.Extends lower → x other = (other.evaluate c >>= k other) n) :
    ∃ v n', lower.evaluate c n = .ok v n' := by
  cases hc : lower.evaluate c n with
  | ok v n' => exact ⟨v, n', rfl⟩
  | error g n' =>
    obtain ⟨g', o', hanswer, -, -⟩ := evaluate_error_iff.1 hc
    exact absurd h ((FailsBy.of_evaluate hx).not_itself hanswer)

end

/-! ## The tasks that have failed -/

namespace Unwinds

variable {rounds depth : Nat} {r q : Request} {m o : Machine} {ts : List Task} {f : Failure}

/-- What unwinds fails, and every task makes of the failure what it does. -/
theorem sound (h : Unwinds rounds depth r m ts q o f) :
    ∃ p, (ofDepth rounds depth).answer r m = .error (ts.foldr Task.relabel f) p := by
  induction h with
  | itself h => exact ⟨_, h _ (.refl _)⟩
  | through ht h _ ih =>
    obtain ⟨p, hp⟩ := ih
    exact ⟨_, h _ (.refl _) _ _ hp⟩

/-- What fails within its limits unwinds, from a failure that a request may raise. -/
theorem complete {g : Failure} {p : Machine}
    (h : (ofDepth rounds depth).answer r m = .error g p) (hg : g ≠ .exhausted) :
    ∃ ts q o f, Unwinds rounds depth r m ts q o f ∧ q.Raises f ∧
      g = ts.foldr Task.relabel f := by
  induction depth generalizing r m g p with
  | zero =>
    cases r <;>
    · cases h
      exact absurd rfl hg
  | succ depth ih =>
    rcases next_fails rounds h with ⟨hf, hitself⟩ | ⟨t, n, g', o, ht, hg', hby⟩
    · exact ⟨[], r, m, g, .itself hitself, hf, rfl⟩
    · have hg : g = t.relabel g' := by
        have hx := h.symm.trans (hby _ (.refl _) _ _ hg')
        cases hx
        rfl
      have hfinished : g' ≠ .exhausted := by
        rintro rfl
        cases t <;> contradiction
      obtain ⟨ts, q, o, f, hts, hf, rfl⟩ := ih hg' hfinished
      exact ⟨t :: ts, q, o, f, .through ht hby hts, hf, hg⟩

/-- The request that fails by itself does so at the level that is left below the tasks. -/
theorem origin (h : Unwinds rounds depth r m ts q o f) :
    ∃ d p, depth = ts.length + (d + 1) ∧
      FailsItself (ofDepth rounds d) (fun ev => (ev.next rounds).answer q o) f p := by
  induction h with
  | @itself depth r m f p h => exact ⟨depth, p, by simp, h⟩
  | through _ _ _ ih =>
    obtain ⟨d, p, hdepth, hitself⟩ := ih
    exact ⟨d, p, by simp only [List.length_cons]; omega, hitself⟩

/-- There is one way to unwind. -/
theorem unique {ts' : List Task} {q' : Request} {o' : Machine} {f' : Failure}
    (h : Unwinds rounds depth r m ts q o f) (h' : Unwinds rounds depth r m ts' q' o' f') :
    ts = ts' ∧ q = q' ∧ o = o' ∧ f = f' := by
  induction h generalizing ts' q' o' f' with
  | itself h =>
    cases h' with
    | itself h' =>
      have hx := h _ (.refl _)
      rw [h' _ (.refl _)] at hx
      cases hx
      exact ⟨rfl, rfl, rfl, rfl⟩
    | through _ h' hrest' =>
      obtain ⟨p, hp⟩ := hrest'.sound
      exact absurd h (h'.not_itself hp)
  | through _ h hrest ih =>
    obtain ⟨p, hp⟩ := hrest.sound
    cases h' with
    | itself h' => exact absurd h' (h.not_itself hp)
    | through _ h' hrest' =>
      obtain ⟨p', hp'⟩ := hrest'.sound
      obtain ⟨rfl, rfl⟩ := h.unique h' hp hp'
      obtain ⟨rfl, hrest⟩ := ih hrest'
      exact ⟨rfl, hrest⟩

end Unwinds

/-- A failure that is not an error passes the tasks as it is. -/
theorem Task.foldr_relabel_of_blame {f : Failure} (hf : ∀ place, f.blame place = f) (ts : List Task) :
    ts.foldr Task.relabel f = f := by
  induction ts with
  | nil => rfl
  | cons t ts ih =>
    rw [List.foldr_cons, ih]
    cases t with
    | part c => exact hf c.position
    | body b => rfl
    | call callee args => rfl

/-! ## Runs -/

namespace Evaluator

/-- Expressions evaluated in turn fail as one of them does, once those before it have been evaluated. -/
theorem evaluateAll_error_iff {ev : Evaluator} {es : List Expr} {m p : Machine} {f : Failure} :
    ev.evaluateAll es m = .error f p ↔ ∃ before e after v n, es = before ++ e :: after ∧
      ev.evaluateAll before m = .ok v n ∧ ev.evaluate e n = .error f p := by
  constructor
  · unfold evaluateAll
    generalize Value.unit = u
    intro h
    induction es generalizing u m with
    | nil => cases h
    | cons e es ih =>
      rw [evaluateAll_cons] at h
      cases he : ev.evaluate e m with
      | error g n =>
        rw [Eval.bind_error he] at h
        cases h
        exact ⟨[], e, es, u, m, rfl, rfl, he⟩
      | ok v n =>
        rw [Eval.bind_ok he] at h
        obtain ⟨before, e', after, w, n', rfl, hbefore, he'⟩ := ih v h
        refine ⟨e :: before, e', after, w, n', rfl, ?_, he'⟩
        rw [evaluateAll_cons, Eval.bind_ok he]
        exact hbefore
  · rintro ⟨before, e, after, v, n, rfl, hbefore, he⟩
    unfold evaluateAll at hbefore ⊢
    rw [List.foldlM_append, Eval.bind_ok hbefore, evaluateAll_cons, Eval.bind_error he]

end Evaluator

namespace Program

/-- A run comes to one of its expressions on a machine. -/
def Reaches (limits : Limits) (p : Program) (m : Machine) (e : Expr) (n : Machine) : Prop :=
  ∃ before after v, p.exprs = before ++ e :: after ∧
    limits.evaluator.evaluateAll before m = .ok v n

/-- A run fails as the expression does that it has come to. -/
theorem run_error_iff {limits : Limits} {p : Program} {m m' : Machine} {f : Failure} :
    p.run limits m = .error f m' ↔ ∃ e n g o, p.Reaches limits m e n ∧
      limits.evaluator.visit e n.child = .error g o ∧ f = g.blame e.position ∧
      m' = o.enclosing := by
  rw [run, evaluateAll_error_iff]
  constructor
  · rintro ⟨before, e, after, v, n, hp, hbefore, he⟩
    obtain ⟨g, o, hvisit, hf, hm'⟩ := evaluate_error_iff.1 he
    exact ⟨e, n, g, o, ⟨before, after, v, hp, hbefore⟩, hvisit, hf, hm'⟩
  · rintro ⟨e, n, g, o, ⟨before, after, v, hp, hbefore⟩, hvisit, hf, hm'⟩
    exact ⟨before, e, after, v, n, hp, hbefore, evaluate_error_iff.2 ⟨g, o, hvisit, hf, hm'⟩⟩

end Program

end SmallLisp
