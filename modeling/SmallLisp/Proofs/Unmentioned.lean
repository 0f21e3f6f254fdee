import SmallLisp.Proofs.Lasting
import SmallLisp.Proofs.Meaning

/-!
# Names that are not mentioned

A variable of the outermost frame whose name a program mentions nowhere neither changes what the
program does nor is changed by it. Two machines that differ by this variable alone
(`Machine.Beside`) show the same under any other name, and stay so whatever is declared and assigned
under other names. So a level of nesting runs alike on both when it is asked for something that does
not mention the name, if the level below does (`Evaluator.next_unaware`).

The level below is asked for bodies of functions too, and runs alike on those alone that do not
mention the name either. No others come up: functions come from the text of the program, and the one
variable that might hold another is never read (`Terms.avoiding_lasting`). Main statement:
`Program.run_unmentioned`.
-/

set_option autoImplicit false

namespace SmallLisp

open Scope Evaluator

/-! ## Mentioning a name -/

/-- An expression mentions a name, somewhere in it. -/
inductive Expr.Mentions (x : String) : Expr → Prop
  | here {e : Expr} (h : x ∈ e.ownNames) : Mentions x e
  | part {e c : Expr} (hc : c ∈ e.children) (h : Mentions x c) : Mentions x e

theorem Expr.not_mentions {e : Expr} {x : String} (h : x ∉ e.ownNames)
    (hparts : ∀ c ∈ e.children, ¬ c.Mentions x) : ¬ e.Mentions x := by
  intro hmentions
  cases hmentions with
  | here hown => exact h hown
  | part hc hpart => exact hparts _ hc hpart

theorem Expr.mem_ownNames {e : Expr} {x : String}
    (h : e.reads? = some x ∨ e.declares? = some x ∨ e.assigns? = some x) : x ∈ e.ownNames := by
  cases e with
  | call callee args pos => cases callee <;> simp_all [reads?, declares?, assigns?, ownNames]
  | _ => simp_all [reads?, declares?, assigns?, ownNames]

/-- What is called does not mention the name. -/
def Callable.Avoids (x : String) : Callable → Prop
  | function _ body => ¬ body.Mentions x
  | native _ => True

/-- Neither the value nor an item in it is a function that mentions the name. -/
def Value.Avoids (x : String) (v : Value) : Prop :=
  v.Everywhere fun u => ∀ callee, u.callable? = some callee → callee.Avoids x

/-- A request for something that does not mention the name. -/
def Request.Avoids (x : String) : Request → Prop
  | visit e => ¬ e.Mentions x
  | call callee args => callee.Avoids x ∧ ∀ v ∈ args, v.Avoids x

/-- Terms on which the name is not mentioned, nor by what other variables hold. -/
def Terms.avoiding (x : String) : Terms where
  machine m := m.HoldsBut x (Value.Avoids x)
  value := Value.Avoids x
  asks t n := t.request.Avoids x ∧ n.HoldsBut x (Value.Avoids x)
  fails _ := True

theorem Callable.avoids_value_iff {x : String} {callee : Callable} :
    callee.value.Avoids x ↔ callee.Avoids x := by
  constructor
  · intro h
    cases callee <;> exact h.self _ rfl
  · intro h
    cases callee <;>
    · refine .of_no_items rfl ?_
      rintro callee ⟨⟩
      exact h

namespace Terms

theorem avoiding_closed (x : String) : (avoiding x).Closed where
  child _ hm := hm.child
  bind _ hops y _ hm hv := hm.bind hops y hv
  set _ hops y _ hm hv := hm.set hops y hv
  echo _ _ hm := hm
  line _ _ _ hm _ := ⟨.of_no_items rfl nofun, hm⟩
  unit := .of_no_items rfl nofun
  int _ := .of_no_items rfl nofun
  bool _ := .of_no_items rfl nofun
  text _ := .of_no_items rfl nofun
  array _ hvs := .intro nofun hvs
  item _ _ h _ hv := h.item hv
  joined _ _ _ _ _ := .of_no_items rfl nofun
  rendered _ _ := .of_no_items rfl nofun
  character _ _ _ _ _ := .of_no_items rfl nofun
  coded _ _ := .of_no_items rfl nofun
  callable _ callee hv h := Callable.avoids_value_iff.2 (hv.self callee h)
  fault _ _ := trivial
  exhausted := trivial

theorem avoiding_fair {x : String} {r : Request} (hr : r.Avoids x) : (avoiding x).Fair r :=
  { avoiding_closed x with
    given := by
      rintro callee args rfl
      exact ⟨Callable.avoids_value_iff.2 hr.1, hr.2⟩
    function := by
      rintro params body pos rfl
      exact .of_no_items rfl (by rintro callee ⟨⟩ h; exact hr (.part List.mem_cons_self h))
    lookup := by
      intro y m v hy hm hv
      refine hm.value hv ?_
      rintro rfl
      unfold Request.reads at hy
      split at hy
      · cases hy
        exact hr (.here List.mem_cons_self)
      · cases hy
        exact hr (.here List.mem_cons_self)
      · cases hy
    relate := fun _ _ _ _ _ _ _ _ => trivial
    part := by
      intro c hc n hn
      cases r with
      | visit e => exact ⟨fun h => hr (.part hc h), hn.child⟩
      | call callee args => cases hc
    body := fun params body n _ hfunction hn => ⟨hfunction.self _ rfl, hn⟩
    call := fun callee args n _ hcallee hargs hn =>
      ⟨⟨Callable.avoids_value_iff.1 hcallee, hargs⟩, hn⟩ }

/-- What does not mention the name keeps to terms without it, at any depth. -/
theorem avoiding_lasting (x : String) : (avoiding x).Lasting (Request.Avoids x) where
  closed := avoiding_closed x
  fair _ := avoiding_fair
  asked _ _ h := h
  relabel _ _ _ _ _ := trivial
  enclosing _ hm := hm.enclosing

end Terms

/-! ## One more variable -/

/-- The second frame is the first with one more variable, which has this value. -/
structure Frame.Beside (z : String) (w : Value) (f g : Frame) : Prop where
  others : g.bindings.filter (·.name ≠ z) = f.bindings
  held : g.get? z = some w

/-- The second frames are the first with one more variable of the outermost frame, which is behind
so many others. -/
inductive Scope.Beside (z : String) (w : Value) : Nat → List Frame → List Frame → Prop
  | outermost {f g : Frame} (h : f.Beside z w g) : Beside z w 0 [f] [g]
  | inner {k : Nat} {fs gs : List Frame} (f : Frame) (h : Beside z w k fs gs) :
    Beside z w (k + 1) (f :: fs) (f :: gs)

/-- The second machine is the first with one more variable of the outermost frame. -/
structure Machine.Beside (z : String) (w : Value) (k : Nat) (m n : Machine) : Prop where
  frames : Scope.Beside z w k m.scope.frames n.scope.frames
  console : m.console = n.console

section
variable {z : String} {w : Value}

namespace Frame.Beside

variable {f g : Frame} {x : String}

theorem get?_eq (h : f.Beside z w g) (hx : x ≠ z) : g.get? x = f.get? x := by
  rw [get?, get?, ← h.others, List.find?_filter]
  congr 2
  funext b
  by_cases hb : b.name = x <;> simp [hb, hx]

theorem bind (h : f.Beside z w g) (hx : x ≠ z) (v : Value) :
    (f.bind x v).Beside z w (g.bind x v) where
  others := by simp [Frame.bind, ← h.others, hx]
  held := by rw [get?_bind, h.held, Option.some_or]

theorem set (h : f.Beside z w g) (hx : x ≠ z) (v : Value) :
    (f.set x v).Beside z w (g.set x v) where
  others := by
    rw [Frame.set, Frame.set, ← h.others, List.filter_map]
    congr 2
    funext b
    simp only [Function.comp]
    split <;> rfl
  held := by rw [get?_set, if_neg hx, h.held]

end Frame.Beside

namespace Scope.Beside

variable {k : Nat} {fs gs : List Frame} {x : String}

theorem valueAt_eq (h : Beside z w k fs gs) (hx : x ≠ z) (i : Nat) :
    valueAt gs i x = valueAt fs i x := by
  induction h generalizing i with
  | outermost h =>
    cases i with
    | zero => exact h.get?_eq hx
    | succ i => rfl
  | inner f h ih =>
    cases i with
    | zero => rfl
    | succ i => exact ih i

theorem tail (h : Beside z w (k + 1) fs gs) : Beside z w k fs.tail gs.tail := by
  cases h with
  | inner f h => exact h

theorem ne_nil (h : Beside z w k fs gs) : fs ≠ [] ∧ gs ≠ [] := by
  cases h with
  | outermost h => exact ⟨List.cons_ne_nil _ _, List.cons_ne_nil _ _⟩
  | inner f h => exact ⟨List.cons_ne_nil _ _, List.cons_ne_nil _ _⟩

theorem isEmpty_tail (h : Beside z w k fs gs) : gs.tail.isEmpty = fs.tail.isEmpty := by
  cases h with
  | outermost h => rfl
  | inner f h =>
    obtain ⟨hfs, hgs⟩ := h.ne_nil
    exact (List.isEmpty_eq_false_iff.2 hgs).trans (List.isEmpty_eq_false_iff.2 hfs).symm

theorem modify (h : Beside z w k fs gs) {change : Frame → Frame}
    (hchange : ∀ f g : Frame, f.Beside z w g → (change f).Beside z w (change g)) (i : Nat) :
    Beside z w k (fs.modify i change) (gs.modify i change) := by
  induction h generalizing i with
  | outermost h =>
    cases i with
    | zero => exact .outermost (hchange _ _ h)
    | succ i =>
      rw [List.modify_succ_cons, List.modify_succ_cons, List.modify_nil]
      exact .outermost h
  | inner f h ih =>
    cases i with
    | zero => exact .inner (change f) h
    | succ i => exact .inner f (ih i)

theorem bind (h : Beside z w k fs gs) (hx : x ≠ z) (i : Nat) (v : Value) :
    Beside z w k (fs.modify i (·.bind x v)) (gs.modify i (·.bind x v)) :=
  h.modify (fun _ _ h => h.bind hx v) i

theorem set (h : Beside z w k fs gs) (hx : x ≠ z) (i : Nat) (v : Value) :
    Beside z w k (fs.modify i (·.set x v)) (gs.modify i (·.set x v)) :=
  h.modify (fun _ _ h => h.set hx v) i

/-- An inner frame is the same on both sides, and may be changed in any way. -/
theorem modify_innermost (h : Beside z w (k + 1) fs gs) (change : Frame → Frame) :
    Beside z w (k + 1) (fs.modify 0 change) (gs.modify 0 change) := by
  cases h with
  | inner f h => exact .inner (change f) h

theorem valueAt_innermost (h : Beside z w (k + 1) fs gs) (x : String) :
    valueAt gs 0 x = valueAt fs 0 x := by
  cases h with
  | inner f h => rfl

end Scope.Beside

namespace Machine.Beside

variable {k : Nat} {m n : Machine} {x : String}

theorem child (h : Beside z w k m n) : Beside z w (k + 1) m.child n.child :=
  ⟨.inner .empty h.frames, h.console⟩

theorem enclosing (h : Beside z w (k + 1) m n) : Beside z w k m.enclosing n.enclosing := by
  obtain ⟨hm, hn⟩ := h.frames.tail.ne_nil
  refine ⟨?_, h.console⟩
  rw [Machine.enclosing, Machine.enclosing, frames_enclosing _ hm, frames_enclosing _ hn]
  exact h.frames.tail

theorem home (h : Beside z w k m n) : n.scope.home = m.scope.home := by
  have houter : n.scope.outer.isEmpty = m.scope.outer.isEmpty := h.frames.isEmpty_tail
  rw [Scope.home, Scope.home, houter]

theorem sameConsole (z : String) (w : Value) (k : Nat) : SameConsole (Beside z w k) where
  console _ _ h := h.console
  talk _ _ h _ := ⟨h.frames, rfl⟩

theorem sameValue (w : Value) (k : Nat) (hx : x ≠ z) : SameValue (Beside z w k) x := by
  intro m n h
  rw [value?, value?, find?, find?, findIn_congr (h.frames.valueAt_eq hx)]

theorem sameWrites (w : Value) (k : Nat) (hx : x ≠ z) : SameWrites (Beside z w k) id x where
  writing m n h hops v := by
    refine ⟨?_, h.console⟩
    rw [frames_writing, frames_writing]
    exact h.frames.set hx hops v

theorem sameAssignment (w : Value) (k : Nat) (hx : x ≠ z) :
    SameAssignment (Beside z w k) id x where
  toSameWrites := sameWrites w k hx
  assignable m n h := by
    have hfind : findIn x (n.scope.frames.drop m.scope.home) =
        findIn x (m.scope.frames.drop m.scope.home) :=
      findIn_congr fun i => by rw [valueAt_drop, valueAt_drop, h.frames.valueAt_eq hx]
    have hsame : n.scope.assignable m.scope.home x = m.scope.assignable m.scope.home x := by
      rw [Scope.assignable, Scope.assignable, hfind]
    rw [h.home, hsame]
    cases m.scope.assignable m.scope.home x <;> rfl

theorem sameDeclaration (w : Value) (k : Nat) (hx : x ≠ z) :
    SameDeclaration (Beside z w k) id x where
  toSameWrites := sameWrites w k hx
  home _ _ h := h.home
  held m n h := by
    rw [h.home]
    exact h.frames.valueAt_eq hx _
  declaring m n h := by
    refine ⟨?_, h.console⟩
    rw [frames_declaring, frames_declaring, h.home]
    exact h.frames.bind hx _ _

/-- Other variables hold the same on both sides. -/
theorem holdsBut (h : Beside z w k m n) (P : Value → Prop) : n.HoldsBut z P ↔ m.HoldsBut z P := by
  constructor
  · exact fun hn i x v hv hx => hn i x v ((h.frames.valueAt_eq hx i).trans hv) hx
  · exact fun hm i x v hv hx => hm i x v ((h.frames.valueAt_eq hx i).symm.trans hv) hx

end Machine.Beside

/-! ## Evaluators that are unaware of it -/

/-- The evaluator answers alike whether there is one more variable or not. -/
def Evaluator.Unaware (z : String) (w : Value) (ev : Evaluator) : Prop :=
  ∀ r k, Eval.Alike False (Machine.Beside z w k) (ev.answer r) (ev.answer r)

namespace Evaluator

variable {lower : Evaluator} (hl : lower.Unaware z w)
include hl

theorem evaluate_unaware (e : Expr) (k : Nat) :
    Eval.Alike False (Machine.Beside z w k) (lower.evaluate e) (lower.evaluate e) := by
  have hvisit : Eval.Alike False (Machine.Beside z w (k + 1)) (lower.visit e) (lower.visit e) :=
    hl (.visit e) (k + 1)
  exact (hvisit.inChild (fun _ _ h => h.child) fun _ _ h => h.enclosing).blaming _

/-- The frame of the parameters is an inner one: they may have any names. -/
theorem enter_unaware (params : List String) (body : Expr) (args : List Value) (k : Nat) :
    Eval.Alike False (Machine.Beside z w k) (lower.enter params body args)
      (lower.enter params body args) := by
  have hdeclare : Eval.Alike False (Machine.Beside z w (k + 1)) (Eval.declareAll (params.zip args))
      (Eval.declareAll (params.zip args)) := by
    refine .declareAll _ (fun _ _ h x => h.frames.valueAt_innermost x) fun m n h x v => ?_
    refine ⟨?_, h.console⟩
    rw [frames_modify, frames_modify]
    exact h.frames.modify_innermost _
  have hrun := hdeclare.bind fun _ => hl (.visit body) (k + 1)
  exact hrun.inChild (fun _ _ h => h.child) fun _ _ h => h.enclosing

theorem callNext_unaware (callee : Callable) (args : List Value) (k : Nat) :
    Eval.Alike False (Machine.Beside z w k) (lower.callNext callee args)
      (lower.callNext callee args) :=
  callNext_alike (Machine.Beside.sameConsole z w k) (fun callee args => hl (.call callee args) k)
    callee args fun params body _ => enter_unaware hl params body args k

/-- A level of nesting runs alike when it is asked for what does not mention the name. -/
theorem next_unaware (rounds : Nat) {r : Request} (hr : r.Avoids z) (k : Nat) :
    Eval.Alike False (Machine.Beside z w k) ((lower.next rounds).answer r)
      ((lower.next rounds).answer r) := by
  cases r with
  | call callee args => exact callNext_unaware hl callee args k
  | visit e =>
    show Eval.Alike False (Machine.Beside z w k) (lower.visitNext rounds e)
      (lower.visitNext rounds e)
    have hparts : ∀ c ∈ e.children,
        Eval.Alike False (Machine.Beside z w k) (lower.evaluate c) (lower.evaluate c) :=
      fun c _ => evaluate_unaware hl c k
    have hne {x : String} (hx : e.reads? = some x ∨ e.declares? = some x ∨ e.assigns? = some x) :
        x ≠ z := fun hxz => hr (.here (hxz ▸ Expr.mem_ownNames hx))
    cases hd : e.declares? with
    | some x =>
      have hx : x ≠ z := hne (.inr (.inl hd))
      exact visitNext_declares_alike hparts hd (Machine.Beside.sameDeclaration w k hx)
    | none =>
      cases ha : e.assigns? with
      | some x =>
        have hx : x ≠ z := hne (.inr (.inr ha))
        exact visitNext_assigns_alike hparts ha (Machine.Beside.sameAssignment w k hx)
      | none =>
        refine visitNext_alike (fun x hx => ?_) (Nat.le_refl _) (.inr rfl) hd ha hparts
          fun _ _ callee args => callNext_unaware hl callee args k
        exact Machine.Beside.sameValue w k (hne (.inl hx))

end Evaluator

namespace Evaluator

/-- What may be asked for: nothing that mentions the name, on a machine that does so nowhere else
than in the variable of that name. -/
def Innocent (z : String) (r : Request) (m : Machine) : Prop :=
  r.Avoids z ∧ m.HoldsBut z (Value.Avoids z)

/-- At any depth, an evaluator that answers nothing else runs alike with and without the variable.
-/
theorem restrict_unaware (z : String) (w : Value) (rounds depth : Nat) :
    ((ofDepth rounds depth).restrict (Innocent z)).Unaware z w := by
  induction depth with
  | zero =>
    intro r k m n h
    rw [answer_restrict, answer_restrict]
    have hexhausted (o : Machine) : (ofDepth rounds 0).answer r o = .error .exhausted o := by
      cases r <;> rfl
    rw [hexhausted, hexhausted, ite_self, ite_self]
    exact .error h
  | succ depth ih =>
    intro r k m n h
    rw [answer_restrict, answer_restrict]
    have hsame : Innocent z r n ↔ Innocent z r m := and_congr_right fun _ => h.holdsBut _
    by_cases hm : Innocent z r m
    · have hlevel {p : Machine} (hp : Innocent z r p) :
          (((ofDepth rounds depth).restrict (Innocent z)).next rounds).answer r p =
            (ofDepth rounds (depth + 1)).answer r p :=
        (Terms.avoiding_lasting z).answer_restrict rounds depth hp.1 hp.2
      have hnext := next_unaware ih rounds hm.1 k h
      rw [hlevel hm, hlevel (hsame.2 hm)] at hnext
      rw [if_pos hm, if_pos (hsame.2 hm)]
      exact hnext
    · rw [if_neg hm, if_neg (mt hsame.1 hm)]
      exact .error h

variable {rounds depth k : Nat} {m n : Machine}

theorem evaluate_beside (h : Machine.Beside z w k m n) (hm : m.HoldsBut z (Value.Avoids z))
    {e : Expr} (he : ¬ e.Mentions z) :
    Outcome.Alike False (Machine.Beside z w k) ((ofDepth rounds depth).evaluate e m)
      ((ofDepth rounds depth).evaluate e n) := by
  have hrestrict {p : Machine} (hp : p.HoldsBut z (Value.Avoids z)) :
      ((ofDepth rounds depth).restrict (Innocent z)).evaluate e p =
        (ofDepth rounds depth).evaluate e p := by
    have hasked : Innocent z (.visit e) p.child := ⟨he, hp.child⟩
    exact evaluate_eq_of_visit (answer_restrict_of hasked)
  have halike := evaluate_unaware (restrict_unaware z w rounds depth) e k h
  rwa [hrestrict hm, hrestrict ((h.holdsBut _).2 hm)] at halike

/-- Expressions that do not mention the name are evaluated in turn alike with and without the
variable. -/
theorem evaluateAll_beside (h : Machine.Beside z w k m n) (hm : m.HoldsBut z (Value.Avoids z))
    {es : List Expr} (hes : ∀ e ∈ es, ¬ e.Mentions z) :
    Outcome.Alike False (Machine.Beside z w k) ((ofDepth rounds depth).evaluateAll es m)
      ((ofDepth rounds depth).evaluateAll es n) := by
  unfold evaluateAll
  generalize Value.unit = u
  induction es generalizing u m n with
  | nil => exact .ok h
  | cons e es ih =>
    have he : ¬ e.Mentions z := hes e List.mem_cons_self
    have hasked : (Terms.avoiding z).asks (.part e) m.child := ⟨he, hm.child⟩
    have hwithin := (Terms.avoiding_lasting z).evaluate rounds depth hasked
    rw [evaluateAll_cons]
    refine (evaluate_beside h hm he).bind fun v m' n' ho h' => ?_
    rw [ho] at hwithin
    exact ih h' hwithin.2 (fun e he => hes e (List.mem_cons_of_mem _ he)) v

end Evaluator

end

/-! ## Runs of programs -/

/-- A declaration of a new name adds one variable. -/
theorem Frame.Beside.of_bind {f : Frame} {z : String} (h : z ∉ f.names) (w : Value) :
    f.Beside z w (f.bind z w) where
  others := by
    have hall : ∀ b ∈ f.bindings, b.name ≠ z := fun b hb hz => h (hz ▸ List.mem_map_of_mem hb)
    have hold : f.bindings.filter (·.name ≠ z) = f.bindings :=
      List.filter_eq_self.2 fun b hb => decide_eq_true (hall b hb)
    rw [Frame.bind, List.filter_append, hold]
    simp
  held := by
    have hnone : f.get? z = none := Option.not_isSome_iff_eq_none.1 (mt get?_isSome_iff.1 h)
    rw [get?_bind, hnone, Option.none_or, if_pos rfl]

theorem Outcome.Alike.givesUp_iff {R : Machine → Machine → Prop} {α : Type} {o o' : Outcome α}
    (h : Outcome.Alike False R o o') : o.GivesUp ↔ o'.GivesUp := by
  cases h with
  | ok h => exact iff_of_false nofun nofun
  | error h =>
    constructor
    · rintro ⟨m, ⟨⟩⟩
      exact ⟨_, rfl⟩
    · rintro ⟨m, ⟨⟩⟩
      exact ⟨_, rfl⟩
  | exhausted h => exact h.elim

namespace Program

variable {p : Program} {m n : Machine} {R : Machine → Machine → Prop}

/-- Runs that are alike at all limits both go on for ever, or come to outcomes that are alike. -/
theorem comesTo_alike (h : ∀ limits, Outcome.Alike False R (p.run limits m) (p.run limits n)) :
    (p.Diverges m ∧ p.Diverges n) ∨
      ∃ o o', p.ComesTo m o ∧ p.ComesTo n o' ∧ Outcome.Alike False R o o' := by
  by_cases hdiverges : p.Diverges m
  · exact .inl ⟨hdiverges, fun limits => (h limits).givesUp_iff.1 (hdiverges limits)⟩
  · obtain ⟨limits, hfinished⟩ := Classical.not_forall.1 hdiverges
    have hother : ¬ (p.run limits n).GivesUp := mt (h limits).givesUp_iff.2 hfinished
    exact .inr ⟨_, _, comesTo_of_not_givesUp hfinished, comesTo_of_not_givesUp hother, h limits⟩

/-- A program that does not mention a name other than those of the library runs alike whether a
variable of this name has been declared before it or not, whatever the value: either it goes on for
ever both times, or it comes to the same value or to the same error both times, with the same output
and input and the same global variables apart from the one more, which still has its value. At any
limits, it does so or gives up both times. -/
theorem run_unmentioned {z : String} (hz : z ∉ Frame.library.names) (w : Value)
    (hp : ∀ e ∈ p.exprs, ¬ e.Mentions z) (input : Text) :
    ∃ n, Eval.declare 0 z w (freshMachine input) = .ok () n ∧
      (∀ limits, Outcome.Alike False (Machine.Beside z w 0) (p.run limits (freshMachine input))
        (p.run limits n)) ∧
      ((p.Diverges (freshMachine input) ∧ p.Diverges n) ∨
        ∃ o o', p.ComesTo (freshMachine input) o ∧ p.ComesTo n o' ∧
          Outcome.Alike False (Machine.Beside z w 0) o o') := by
  have hnew : valueAt (freshMachine input).scope.frames 0 z = none :=
    Option.not_isSome_iff_eq_none.1 (mt Frame.get?_isSome_iff.1 hz)
  have hbeside : Machine.Beside z w 0 (freshMachine input)
      { freshMachine input with scope := (freshMachine input).scope.modify 0 (·.bind z w) } :=
    ⟨.outermost (.of_bind hz w), rfl⟩
  have hholds : (freshMachine input).HoldsBut z (Value.Avoids z) :=
    .freshMachine (fun f _ => .of_no_items rfl (by rintro callee ⟨⟩; trivial)) input
  have hruns (limits : Limits) : Outcome.Alike False (Machine.Beside z w 0)
      (p.run limits (freshMachine input)) (p.run limits _) := evaluateAll_beside hbeside hholds hp
  exact ⟨_, Eval.declare_new hnew w, hruns, comesTo_alike hruns⟩

/-- A call of a function of one parameter, with a variable that neither mentions. -/
theorem run_unmentioned_call :
    let f := Expr.function ["x"] (.name "x" .start) .start
    let p : Program :=
      ⟨.start, [.declareAs "f" f .start, .call (.named "f") [.literal (.int 1) .start] .start]⟩
    "z" ∉ Frame.library.names ∧ (∀ e ∈ p.exprs, ¬ e.Mentions "z") ∧
    ∃ n, Eval.declare 0 "z" (.int 7) (freshMachine []) = .ok () n ∧
      (∀ limits, Outcome.Alike False (Machine.Beside "z" (.int 7) 0)
        (p.run limits (freshMachine [])) (p.run limits n)) ∧
      ((p.Diverges (freshMachine []) ∧ p.Diverges n) ∨
        ∃ o o', p.ComesTo (freshMachine []) o ∧ p.ComesTo n o' ∧
          Outcome.Alike False (Machine.Beside "z" (.int 7) 0) o o') := by
  intro f p
  have hz : "z" ∉ Frame.library.names := by decide
  have hx : ¬ (Expr.name "x" .start).Mentions "z" :=
    Expr.not_mentions (by decide) (List.forall_mem_nil _)
  have hone : ¬ (Expr.literal (.int 1) .start).Mentions "z" :=
    Expr.not_mentions (by decide) (List.forall_mem_nil _)
  have hf : ¬ f.Mentions "z" := Expr.not_mentions (by decide) (List.forall_mem_singleton.2 hx)
  have hdeclare : ¬ (Expr.declareAs "f" f .start).Mentions "z" :=
    Expr.not_mentions (by decide) (List.forall_mem_singleton.2 hf)
  have hcall : ¬ (Expr.call (.named "f") [.literal (.int 1) .start] .start).Mentions "z" :=
    Expr.not_mentions (by decide) (List.forall_mem_singleton.2 hone)
  have hp : ∀ e ∈ p.exprs, ¬ e.Mentions "z" :=
    List.forall_mem_cons.2 ⟨hdeclare, List.forall_mem_singleton.2 hcall⟩
  exact ⟨hz, hp, run_unmentioned hz (.int 7) hp []⟩

end Program

end SmallLisp
