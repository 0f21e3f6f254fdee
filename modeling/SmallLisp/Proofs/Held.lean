import SmallLisp.Proofs.Lasting

/-!
# What frames hold

Conditions on expressions, on values and on frames may be such that evaluation cannot break them
(`Conditions.Sound`). Then whatever meets them does so at every depth: the values that variables hold,
those that are handed to functions, those that come out, and all items in them
(`Conditions.Sound.lasting`).
-/

set_option autoImplicit false

namespace SmallLisp

open Scope

/-- The values of all variables of all frames have a property. -/
def Machine.Holds (P : Value → Prop) (m : Machine) : Prop :=
  ∀ f ∈ m.scope.frames, ∀ b ∈ f.bindings, P b.value

namespace Machine.Holds

variable {P : Value → Prop} {m : Machine} (h : m.Holds P)
include h

theorem child : m.child.Holds P := by
  intro f hf b hb
  rcases List.mem_cons.1 hf with rfl | hf
  · cases hb
  · exact h f hf b hb

theorem enclosing : m.enclosing.Holds P := by
  intro f hf
  rcases m.scope.frames_enclosing_cases with hsame | ⟨-, houter⟩
  · rw [Machine.enclosing, hsame] at hf
    exact h f hf
  · rw [Machine.enclosing, houter] at hf
    exact h f (List.mem_cons_of_mem _ hf)

/-- A frame may be changed as long as what it holds then has the property. -/
theorem modify (hops : Nat) {change : Frame → Frame}
    (hchange : ∀ f, (∀ b ∈ f.bindings, P b.value) → ∀ b ∈ (change f).bindings, P b.value) :
    Machine.Holds P { m with scope := m.scope.modify hops change } := by
  intro f hf
  rw [frames_modify] at hf
  obtain ⟨k, hk⟩ := List.mem_iff_getElem?.1 hf
  rw [List.getElem?_modify] at hk
  obtain ⟨g, hg, rfl⟩ := Option.map_eq_some_iff.1 hk
  have hheld := h g (List.mem_of_getElem? hg)
  split
  · exact hchange g hheld
  · exact hheld

theorem bind (hops : Nat) (x : String) {v : Value} (hv : P v) :
    Machine.Holds P { m with scope := m.scope.modify hops (·.bind x v) } := by
  refine h.modify hops fun f hf b hb => ?_
  rcases List.mem_append.1 hb with hb | hb
  · exact hf b hb
  · rw [List.mem_singleton.1 hb]
    exact hv

theorem set (hops : Nat) (x : String) {v : Value} (hv : P v) :
    Machine.Holds P { m with scope := m.scope.modify hops (·.set x v) } := by
  refine h.modify hops fun f hf b hb => ?_
  obtain ⟨c, hc, rfl⟩ := List.mem_map.1 hb
  split
  · exact hv
  · exact hf c hc

theorem value {x : String} {v : Value} (hv : m.scope.value? x = some v) : P v := by
  obtain ⟨⟨k, w⟩, hfind, rfl⟩ := Option.map_eq_some_iff.1 hv
  obtain ⟨f, hf, hget⟩ := Option.bind_eq_some_iff.1 (findIn_eq_some_iff.1 hfind).1
  obtain ⟨b, hb, rfl⟩ := Option.map_eq_some_iff.1 hget
  exact h f (List.mem_of_getElem? hf) b (List.mem_of_find?_eq_some hb)

end Machine.Holds

/-- A request for an expression and for values that have these properties. -/
def Request.Meets (E : Expr → Prop) (P : Value → Prop) : Request → Prop
  | visit e => E e
  | call callee args => P callee.value ∧ ∀ v ∈ args, P v

/-- Conditions on what is evaluated, on values, on the frames around an evaluation and on how it fails. -/
structure Conditions where
  expr : Expr → Prop
  value : Value → Prop
  frames : List Frame → Prop
  fails : Failure → Prop

namespace Conditions

/-- Evaluation cannot break the conditions: those on values are met by all that is not marked and not
called, and those on frames stay as frames come and go, variables are declared and values written. -/
structure Sound (C : Conditions) : Prop where
  part : ∀ e, C.expr e → ∀ c ∈ e.children, C.expr c
  function : ∀ params body, C.value (.function params body) ↔ C.expr body
  data : ∀ v, v.immutable = false → v.callable? = none → C.value v
  callable : ∀ v callee, C.value v → v.callable? = some callee → C.value callee.value
  child : ∀ fs, C.frames fs → C.frames (.empty :: fs)
  outer : ∀ f fs, fs ≠ [] → C.frames (f :: fs) → C.frames fs
  bind : ∀ fs k x v, C.frames fs → C.frames (fs.modify k (·.bind x v))
  set : ∀ fs k x v, C.frames fs → C.frames (fs.modify k (·.set x v))
  fault : ∀ f : Fault, f.Genuine → C.fails (.ofFault f)
  exhausted : C.fails .exhausted
  unencodable : C.fails .unencodable
  blame : ∀ e f, C.expr e → C.fails f → C.fails (f.blame e.position)

variable (C : Conditions)

/-- A value meets the conditions, and so do all items in it. -/
def MetBy (v : Value) : Prop := v.Everywhere C.value

/-- The frames and the values of their variables meet the conditions. -/
structure MetOn (m : Machine) : Prop where
  values : m.Holds C.MetBy
  frames : C.frames m.scope.frames

/-- The terms of what meets the conditions. -/
def terms : Terms where
  machine := C.MetOn
  value := C.MetBy
  asks t n := t.request.Meets C.expr C.MetBy ∧ C.MetOn n
  fails := C.fails

namespace Sound

variable {C} (h : C.Sound)
include h

theorem of_data {v : Value} (hitems : v.items = []) (himm : v.immutable = false)
    (hcallable : v.callable? = none) : C.MetBy v :=
  .of_no_items hitems (h.data v himm hcallable)

theorem enclosing {m : Machine} (hm : C.MetOn m) : C.MetOn m.enclosing where
  values := hm.values.enclosing
  frames := by
    rcases m.scope.frames_enclosing_cases with hsame | ⟨hne, houter⟩
    · rw [Machine.enclosing, hsame]
      exact hm.frames
    · rw [Machine.enclosing, houter]
      exact h.outer m.scope.frame m.scope.outer hne hm.frames

theorem closed : C.terms.Closed where
  child _ hm := ⟨hm.values.child, h.child _ hm.frames⟩
  bind m hops x v hm hv := by
    refine ⟨hm.values.bind hops x hv, ?_⟩
    rw [frames_modify]
    exact h.bind m.scope.frames hops x v hm.frames
  set m hops x v hm hv := by
    refine ⟨hm.values.set hops x hv, ?_⟩
    rw [frames_modify]
    exact h.set m.scope.frames hops x v hm.frames
  echo _ _ hm := ⟨hm.values, hm.frames⟩
  line _ _ _ hm _ := ⟨h.of_data rfl rfl rfl, hm.values, hm.frames⟩
  unit := h.of_data rfl rfl rfl
  int _ := h.of_data rfl rfl rfl
  bool _ := h.of_data rfl rfl rfl
  text _ := h.of_data rfl rfl rfl
  array vs hvs := .intro (h.data (.array vs) rfl rfl) hvs
  item _ _ hvs _ hv := hvs.item hv
  joined _ _ _ _ _ := h.of_data rfl rfl rfl
  rendered _ _ := h.of_data rfl rfl rfl
  character _ _ _ _ _ := h.of_data rfl rfl rfl
  coded _ _ := h.of_data rfl rfl rfl
  callable v callee hv hcallee := by
    refine .of_no_items ?_ (h.callable v callee hv.self hcallee)
    cases callee <;> rfl
  fault := h.fault
  exhausted := h.exhausted

theorem fair {r : Request} (hr : r.Meets C.expr C.MetBy) : C.terms.Fair r :=
  { h.closed with
    given := by
      rintro callee args rfl
      exact hr
    function := by
      rintro params body pos rfl
      exact .of_no_items rfl ((h.function params body).2 (h.part _ hr body List.mem_cons_self))
    lookup := fun x m v _ hm hv => hm.values.value hv
    relate := by
      intro rel a b f _ _ _ hf
      rcases Value.relate_error hf with ⟨fault, rfl, hgenuine⟩ | rfl
      · exact h.fault fault hgenuine
      · exact h.unencodable
    part := by
      intro c hc n hn
      cases r with
      | visit e => exact ⟨h.part e hr c hc, h.closed.child n hn⟩
      | call callee args => cases hc
    body := fun params body n _ hfunction hn => ⟨(h.function params body).1 hfunction.self, hn⟩
    call := fun callee args n _ hcallee hargs hn => ⟨⟨hcallee, hargs⟩, hn⟩ }

/-- What meets the conditions keeps to them, at any depth. -/
theorem lasting : C.terms.Lasting (Request.Meets C.expr C.MetBy) where
  closed := h.closed
  fair _ := h.fair
  asked _ _ ht := ht
  relabel t n f ht hf := by
    cases t with
    | part e => exact h.blame e f ht.1 hf
    | body e => exact hf
    | call callee args => exact hf
  enclosing _ hm := h.enclosing hm

/-- What holds of every request that meets the conditions holds throughout the course of one. -/
theorem throughout {rounds : Nat} {S : Evaluator → Request → Machine → Prop}
    (hS : ∀ depth q n, q.Meets C.expr C.MetBy → C.MetOn n → S (Evaluator.ofDepth rounds depth) q n)
    (depth : Nat) {q : Request} {n : Machine} (hq : q.Meets C.expr C.MetBy) (hn : C.MetOn n) :
    Throughout rounds S depth q n :=
  h.lasting.throughout (I := fun q n => q.Meets C.expr C.MetBy ∧ C.MetOn n) (fun _ _ h => h)
    (fun _ _ _ _ _ _ ht => ht) (fun depth q n hqn => hS depth q n hqn.1 hqn.2) depth ⟨hq, hn⟩

theorem throughoutAll {rounds : Nat} {S : Evaluator → Request → Machine → Prop}
    (hS : ∀ depth q n, q.Meets C.expr C.MetBy → C.MetOn n → S (Evaluator.ofDepth rounds depth) q n)
    (depth : Nat) {es : List Expr} (hes : ∀ e ∈ es, C.expr e) {m : Machine} (hm : C.MetOn m) :
    ThroughoutAll rounds S depth es m := by
  have hasks (e : Expr) (he : e ∈ es) (n : Machine) (hn : C.MetOn n) :
      C.terms.asks (.part e) n.child := ⟨hes e he, h.closed.child n hn⟩
  refine .of_kept (fun e he n hn => ?_) (fun e he n v p hn ho => ?_) hm
  · exact h.throughout hS depth (hasks e he n hn).1 (hasks e he n hn).2
  · have hwithin := h.lasting.evaluate rounds depth (hasks e he n hn)
    rw [ho] at hwithin
    exact hwithin.2

end Sound

end Conditions

end SmallLisp
