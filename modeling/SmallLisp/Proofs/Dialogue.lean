import SmallLisp.Proofs.Scoping

/-!
# One thing at a time

A level of nesting has things done by the level below one at a time, and fails as soon as one of them
does. `Dialogue` says that a computation is of this kind and keeps to some terms: on which machines it
asks for what, which answers it relies on, what it comes to and how it may fail by itself. To show that
a level of nesting is such a dialogue it is enough to look at single values and single machines.

Two things follow for any dialogue. It keeps to its terms if whatever it asks for does
(`Dialogue.sound`). If it fails, either it fails by itself, or one of the things that it has asked for
has failed and it fails like that (`Dialogue.fails`).
-/

set_option autoImplicit false

namespace SmallLisp

/-! ## Faults that are what they say -/

/-- What a callee or an operator is said not to accept it does not accept. -/
def Fault.Genuine : Fault → Prop
  | .wrongCount _ arity count => arity.accepts count = false
  | .wrongOperands op count => op.arity.accepts count = false
  | _ => True

/-- A result that meets a condition, or a genuine fault. -/
def Yields {α : Type} (post : α → Prop) : Except Fault α → Prop
  | .ok a => post a
  | .error f => f.Genuine

namespace Yields

variable {α β : Type} {P Q : α → Prop} {R : β → Prop} {r : Except Fault α}

theorem mono (h : Yields P r) (hPQ : ∀ a, P a → Q a) : Yields Q r := by
  cases r with
  | ok a => exact hPQ a h
  | error f => exact h

theorem bind {g : α → Except Fault β} (h : Yields P r) (hg : ∀ a, P a → Yields R (g a)) :
    Yields R (r >>= g) := by
  cases r with
  | ok a => exact hg a h
  | error f => exact h

theorem map {g : α → β} (h : Yields P r) (hg : ∀ a, P a → R (g a)) : Yields R (r.map g) := by
  cases r with
  | ok a => exact hg a h
  | error f => exact h

end Yields

namespace Value

theorem truth_yields (v : Value) : Yields (fun _ => True) v.truth := by
  cases v <;> trivial

theorem number_yields (operation : String) (v : Value) :
    Yields (fun _ => True) (v.number operation) := by
  cases v <;> trivial

theorem negate_yields (v : Value) : Yields (fun c => ∃ b, c = bool b) v.negate :=
  v.truth_yields.map fun b _ => ⟨!b, rfl⟩

theorem subtract_yields (a b : Value) : Yields (fun c => ∃ n, c = int n) (a.subtract b) :=
  (number_yields _ a).bind fun _ _ => (number_yields _ b).bind fun _ _ => ⟨_, rfl⟩

theorem multiply_yields (a b : Value) : Yields (fun c => ∃ n, c = int n) (a.multiply b) :=
  (number_yields _ a).bind fun _ _ => (number_yields _ b).bind fun _ _ => ⟨_, rfl⟩

theorem divide_yields (a b : Value) : Yields (fun c => ∃ n, c = int n) (a.divide b) := by
  refine (number_yields _ a).bind fun m _ => (number_yields _ b).bind fun n _ => ?_
  by_cases hn : n = 0
  · simp only [hn, if_true]
    trivial
  · simp only [hn, if_false]
    exact ⟨_, rfl⟩

theorem item_yields {α : Type} (items : List α) (i : Int) :
    Yields (fun a => a ∈ items) (item items i) := by
  rw [item]
  by_cases hi : i < 0
  · rw [if_pos hi]
    trivial
  · rw [if_neg hi]
    cases hget : items[i.toNat]? with
    | none => trivial
    | some a => exact List.mem_of_getElem? hget

end Value

/-! ## What is asked for -/

/-- Something that a level of nesting has done by the level below: a part of an expression evaluated in
a fresh frame, the body of a function in the frame of its parameters, or a call for a native function. -/
inductive Task
  | part (e : Expr)
  | body (e : Expr)
  | call (callee : Callable) (args : List Value)

namespace Task

def request : Task → Request
  | part e | body e => .visit e
  | call callee args => .call callee args

/-- What becomes of a failure: a part takes the blame if nothing has. -/
def relabel : Task → Failure → Failure
  | part e, f => f.blame e.position
  | body _, f | call _ _, f => f

/-- The machine once the frame of a part or a body has been left. -/
def leave : Task → Machine → Machine
  | part _, m | body _, m => m.enclosing
  | call _ _, m => m

/-- What the task comes to when it is begun on a machine, the frame being there. -/
def run (ev : Evaluator) (t : Task) (n : Machine) : Outcome Value :=
  match ev.answer t.request n with
  | .ok v p => .ok v (t.leave p)
  | .error f p => .error (t.relabel f) (t.leave p)

end Task

/-- Goes on with what an outcome yields; a failure is the end. -/
def Outcome.andThen {α β : Type} (o : Outcome α) (f : α → Machine → Outcome β) : Outcome β :=
  match o with
  | .ok a m => f a m
  | .error e m => .error e m

/-- The terms of a dialogue: on which machines things are asked for, which values come up, what is asked
for on which machines, and how the side that asks may fail by itself. -/
structure Terms where
  machine : Machine → Prop
  value : Value → Prop
  asks : Task → Machine → Prop
  fails : Failure → Prop

/-- A computation that has things done by an evaluator, one at a time, and keeps to some terms as long as
the answers do. -/
inductive Dialogue (T : Terms) {α : Type} (post : α → Prop) : (Evaluator → Outcome α) → Prop
  | ok {a : α} {m : Machine} (ha : post a) (hm : T.machine m) : Dialogue T post fun _ => .ok a m
  | error {f : Failure} {m : Machine} (hf : T.fails f) (hm : T.machine m) :
    Dialogue T post fun _ => .error f m
  | ask {t : Task} {n : Machine} {k : Value → Machine → Evaluator → Outcome α} (ht : T.asks t n)
    (hk : ∀ v p, T.value v → T.machine p → Dialogue T post (k v p)) :
    Dialogue T post fun ev => (t.run ev n).andThen fun v p => k v p ev

/-- A computation keeps to some terms on every machine that is within them. -/
def Asking (T : Terms) {α : Type} (post : α → Prop) (x : Evaluator → Eval α) : Prop :=
  ∀ m, T.machine m → Dialogue T post fun ev => x ev m

namespace Dialogue

variable {T : Terms} {α β : Type} {P : α → Prop} {Q : β → Prop} {x : Evaluator → Outcome α}

theorem bind (h : Dialogue T P x) {f : α → Machine → Evaluator → Outcome β}
    (hf : ∀ a m, P a → T.machine m → Dialogue T Q (f a m)) :
    Dialogue T Q fun ev => (x ev).andThen fun a m => f a m ev := by
  induction h with
  | ok ha hm => exact hf _ _ ha hm
  | error he hm => exact .error he hm
  | @ask t n k ht _ ih =>
    have hassoc : (fun ev => ((t.run ev n).andThen fun v p => k v p ev).andThen
        fun a m => f a m ev) =
        fun ev => (t.run ev n).andThen fun v p => (k v p ev).andThen fun a m => f a m ev := by
      funext ev
      cases t.run ev n <;> rfl
    rw [hassoc]
    exact .ask ht ih

end Dialogue

namespace Asking

variable {T : Terms} {α β : Type} {P : α → Prop} {Q : β → Prop}

theorem pure {a : α} (ha : P a) : Asking T P fun _ => pure a := fun _ hm => .ok ha hm

theorem throw {f : Failure} (hf : T.fails f) : Asking T P fun _ => throw f :=
  fun _ hm => .error hf hm

theorem bind {x : Evaluator → Eval α} {f : α → Evaluator → Eval β} (h : Asking T P x)
    (hf : ∀ a, P a → Asking T Q (f a)) : Asking T Q fun ev => x ev >>= fun a => f a ev := by
  intro m hm
  have hbind : (fun ev => (x ev >>= fun a => f a ev) m) =
      fun ev => Outcome.andThen (x ev m) fun a n => f a ev n := by
    funext ev
    cases ho : x ev m with
    | ok a n => exact Eval.bind_ok ho _
    | error g n => exact Eval.bind_error ho _
  rw [hbind]
  exact (h m hm).bind fun a n ha hn => hf a ha n hn

theorem discard {x : Evaluator → Eval α} (h : Asking T P x) :
    Asking T (fun _ : Unit => True) fun ev => discard (x ev) :=
  h.bind fun _ _ => pure trivial

theorem foldlM {f : Evaluator → β → α → Eval β} {as : List α}
    (h : ∀ b, Q b → ∀ a ∈ as, Asking T Q fun ev => f ev b a) {b : β} (hb : Q b) :
    Asking T Q fun ev => as.foldlM (f ev) b := by
  induction as generalizing b with
  | nil => exact pure hb
  | cons a as ih =>
    simp only [List.foldlM_cons]
    refine (h b hb a List.mem_cons_self).bind fun b' hb' => ?_
    exact ih (fun b hb a ha => h b hb a (List.mem_cons_of_mem _ ha)) hb'

theorem mapM {f : Evaluator → α → Eval β} {as : List α}
    (h : ∀ a ∈ as, Asking T Q fun ev => f ev a) :
    Asking T (fun bs => ∀ b ∈ bs, Q b) fun ev => as.mapM (f ev) := by
  induction as with
  | nil => exact pure fun b hb => absurd hb List.not_mem_nil
  | cons a as ih =>
    simp only [List.mapM_cons]
    refine (h a List.mem_cons_self).bind fun b hb => ?_
    refine (ih fun a ha => h a (List.mem_cons_of_mem _ ha)).bind fun bs hbs => ?_
    refine pure fun b' hb' => ?_
    rcases List.mem_cons.1 hb' with rfl | hmem
    · exact hb
    · exact hbs b' hmem

theorem repeatWhile {cond : Evaluator → Eval Bool} {body : Evaluator → Eval Unit}
    (hexhausted : T.fails .exhausted) (hc : Asking T (fun _ => True) cond)
    (hb : Asking T (fun _ => True) body) (rounds : Nat) :
    Asking T (fun _ => True) fun ev => Eval.repeatWhile (cond ev) (body ev) rounds := by
  induction rounds with
  | zero => exact throw hexhausted
  | succ rounds ih =>
    simp only [Eval.repeatWhile]
    refine hc.bind fun goOn _ => ?_
    cases goOn with
    | false => exact pure trivial
    | true => exact hb.bind fun _ _ => ih

end Asking

/-! ## What a dialogue comes to -/

/-- The outcome is within some terms. -/
def Outcome.Within (T : Terms) {α : Type} (post : α → Prop) : Outcome α → Prop
  | .ok a m => post a ∧ T.machine m
  | .error f m => T.fails f ∧ T.machine m

/-- An evaluator that answers all that another one can answer as that one does. -/
def Evaluator.Extends (other lower : Evaluator) : Prop :=
  ∀ q n v p, lower.answer q n = .ok v p → other.answer q n = .ok v p

/-- A computation fails by itself: it does so however those things would fail that fail below. -/
def FailsItself {α : Type} (lower : Evaluator) (x : Evaluator → Outcome α) (f : Failure)
    (p : Machine) : Prop := ∀ other : Evaluator, other.Extends lower → x other = .error f p

/-- A computation fails by something that it asks for: it fails like that, however that would fail. -/
def FailsBy {α : Type} (lower : Evaluator) (x : Evaluator → Outcome α) (t : Task) (n : Machine) :
    Prop :=
  ∀ other : Evaluator, other.Extends lower → ∀ g p, other.answer t.request n = .error g p →
    x other = .error (t.relabel g) (t.leave p)

namespace Task

variable {ev : Evaluator} {t : Task} {n p : Machine}

theorem run_ok {v : Value} (h : ev.answer t.request n = .ok v p) :
    t.run ev n = .ok v (t.leave p) := by
  rw [run, h]

theorem run_error {g : Failure} (h : ev.answer t.request n = .error g p) :
    t.run ev n = .error (t.relabel g) (t.leave p) := by
  rw [run, h]

end Task

namespace Dialogue

variable {T : Terms} {α : Type} {P : α → Prop} {x : Evaluator → Outcome α} {lower : Evaluator}

/-- A dialogue keeps to its terms if what it asks for does. -/
theorem sound (h : Dialogue T P x)
    (hlower : ∀ t n, T.asks t n → (t.run lower n).Within T T.value) : (x lower).Within T P := by
  induction h with
  | ok ha hm => exact ⟨ha, hm⟩
  | error hf hm => exact ⟨hf, hm⟩
  | @ask t n k ht _ ih =>
    have hrun := hlower t n ht
    cases ho : t.run lower n with
    | ok v p =>
      rw [ho] at hrun
      simp only [ho]
      exact ih v p hrun.1 hrun.2
    | error f p =>
      rw [ho] at hrun
      simp only [ho]
      exact hrun

/-- A dialogue that fails does so by itself or by one thing that it asks for. -/
theorem fails (h : Dialogue T P x)
    (hlower : ∀ t n v p, T.asks t n → t.run lower n = .ok v p → T.value v ∧ T.machine p)
    {f : Failure} {p : Machine} (hx : x lower = .error f p) :
    (T.fails f ∧ FailsItself lower x f p) ∨
      ∃ t n g o, T.asks t n ∧ lower.answer t.request n = .error g o ∧ FailsBy lower x t n := by
  induction h with
  | ok ha hm => cases hx
  | error hf hm =>
    cases hx
    exact .inl ⟨hf, fun _ _ => rfl⟩
  | @ask t n k ht _ ih =>
    cases ho : lower.answer t.request n with
    | error g o =>
      refine .inr ⟨t, n, g, o, ht, ho, fun other _ g' o' hg' => ?_⟩
      simp only [Task.run_error hg']
      rfl
    | ok v o =>
      have hrun (other : Evaluator) (hother : other.Extends lower) :
          t.run other n = .ok v (t.leave o) := Task.run_ok (hother _ _ _ _ ho)
      have hsame : lower.Extends lower := fun _ _ _ _ h => h
      obtain ⟨hv, hp⟩ := hlower t n v _ ht (hrun lower hsame)
      simp only [hrun lower hsame] at hx
      rcases ih v _ hv hp hx with ⟨hf, hitself⟩ | ⟨t', n', g, o', ht', hg, hby⟩
      · refine .inl ⟨hf, fun other hother => ?_⟩
        simp only [hrun other hother]
        exact hitself other hother
      · refine .inr ⟨t', n', g, o', ht', hg, fun other hother g' p' hg' => ?_⟩
        simp only [hrun other hother]
        exact hby other hother g' p' hg'

end Dialogue

end SmallLisp
