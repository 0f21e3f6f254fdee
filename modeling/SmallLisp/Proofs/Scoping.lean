import SmallLisp.Proofs.Alike

/-!
# What an evaluation asks for, and what it does to the frames

A level of nesting asks the level below to visit expressions and to call functions. `Request.Asks`
says which requests these are and on what machines they are made. Main statement:
`Evaluator.next_settled`, if the level below lets frames evolve, so does the next one, and what it
answers depends on nothing but the answers to what it asks. By induction on the depth every
evaluator lets frames evolve (`Evaluator.ofDepth_scoped`).
-/

set_option autoImplicit false

namespace SmallLisp

open Scope

/-- How many of the frames around an expression may get new names: that of the construct around it,
by a declaration. -/
def Expr.reach (e : Expr) : Nat := if e.declares?.isSome then 1 else 0

theorem Expr.reach_le_one (e : Expr) : e.reach ≤ 1 := by
  rw [reach]
  split <;> omega

/-- What an evaluator is asked for. -/
inductive Request
  | visit (e : Expr)
  | call (callee : Callable) (args : List Value)

namespace Request

/-- The expressions that a request evaluates. -/
def parts : Request → List Expr
  | visit e => e.children
  | call .. => []

/-- How many frames may get new names. -/
def reach : Request → Nat
  | visit e => e.reach + 1
  | call .. => 1

/-- The name that the innermost frame may fail to hide: an assignment goes past that frame. -/
def exposed : Request → Option String
  | visit e => e.assigns?
  | call .. => none

theorem one_le_reach (r : Request) : 1 ≤ r.reach := by
  cases r with
  | visit e => exact Nat.le_add_left 1 _
  | call => exact Nat.le_refl 1

/-- What a request asks of the level below: the parts of its expression in fresh frames, the bodies of
functions in frames for their parameters, and calls by a native function. -/
inductive Asks (W : Nat → String → Prop) (r : Request) (m : Machine) : Request → Machine → Prop
  | part {c : Expr} {n : Machine} (hc : c ∈ r.parts)
      (h : Evolves r.reach none W m.scope.frames n.scope.frames) :
      Asks W r m (visit c) n.child
  | body {body : Expr} {n : Machine} (hn : n.scope.outer ≠ [])
      (h : Evolves r.reach none W m.scope.frames n.scope.outer) : Asks W r m (visit body) n
  | call {callee : Callable} {args : List Value} {n : Machine}
      (h : Evolves r.reach none W m.scope.frames n.scope.frames) : Asks W r m (call callee args) n

end Request

namespace Evaluator

/-- What an evaluator answers. -/
def answer (ev : Evaluator) : Request → Eval Value
  | .visit e => ev.visit e
  | .call callee args => ev.call callee args

/-- The evaluator lets frames evolve. -/
def Scoped (W : Nat → String → Prop) (ev : Evaluator) : Prop := ∀ r m,
  Evolves r.reach r.exposed W m.scope.frames ((ev.answer r).after m).scope.frames

end Evaluator

variable {W : Nat → String → Prop}

/-! ## Frames that come and go -/

/-- The same machine, whose frames have evolved from those of a machine before. -/
def Machine.Since (W : Nat → String → Prop) (reach : Nat) (m n p : Machine) : Prop :=
  n = p ∧ Evolves reach none W m.scope.frames n.scope.frames

namespace Machine.Since

variable {reach : Nat} {m n p : Machine}

theorem refl (W : Nat → String → Prop) (reach : Nat) (m : Machine) : Since W reach m m m :=
  ⟨rfl, .refl ..⟩

theorem transparent (W : Nat → String → Prop) (reach : Nat) (m : Machine) :
    Transparent (Since W reach m) where
  value := by
    rintro n _ ⟨rfl, -⟩ x
    rfl
  console := by
    rintro n _ ⟨rfl, -⟩
    rfl
  talk := by
    rintro n _ ⟨rfl, h⟩ c
    exact ⟨rfl, h⟩

end Machine.Since

/-- What is left of the frames when the innermost is thrown away. -/
theorem Scope.Evolves.enclosing {k : Nat} {E : Option String} {f : Frame} {fs : List Frame}
    {n : Machine} (h : Evolves (k + 1) E W (f :: fs) n.scope.frames) (hfs : fs ≠ []) :
    Evolves k none W fs n.enclosing.scope.frames := by
  have houter : n.scope.outer ≠ [] := by
    intro hn
    have hlen := h.length
    rw [frames, hn, List.length_cons, List.length_cons] at hlen
    exact hfs (List.length_eq_zero_iff.1 (by simpa using hlen.symm))
  rw [Machine.enclosing, frames_enclosing _ houter]
  exact h.leave

namespace Eval

variable {α β : Type}

theorem inChild_evolves {x : Eval α} {m : Machine} {k : Nat} {E : Option String}
    (h : Evolves (k + 1) E W (.empty :: m.scope.frames) (x.after m.child).scope.frames) :
    Evolves k none W m.scope.frames ((inChild x).after m).scope.frames := by
  rw [after_inChild]
  exact h.enclosing (List.cons_ne_nil _ _)

/-- Declaring names changes nothing but the innermost frame. -/
theorem after_declareAll (vs : List (String × Value)) (m : Machine) :
    ((declareAll vs).after m).scope.outer = m.scope.outer ∧
      Evolves 1 none W m.scope.frames ((declareAll vs).after m).scope.frames := by
  induction vs generalizing m with
  | nil => exact ⟨rfl, .refl ..⟩
  | cons p vs ih =>
    rw [declareAll_cons]
    cases hx : valueAt m.scope.frames 0 p.1 with
    | some v =>
      have hheld : (valueAt m.scope.frames 0 p.1).isSome := by rw [hx]; rfl
      rw [after_error (bind_error (declare_held hheld p.2) _)]
      exact ⟨rfl, .refl ..⟩
    | none =>
      rw [after, bind_ok (declare_new hx p.2)]
      obtain ⟨houter, hev⟩ := ih { m with scope := m.scope.modify 0 (·.bind p.1 p.2) }
      refine ⟨houter, .trans ?_ hev⟩
      rw [frames_modify]
      exact (Evolves.refl ..).bind Nat.one_pos _ _

end Eval

namespace Outcome.Alike

variable {α : Type} {reach : Nat} {m n p : Machine} {x y : Eval α}

/-- Computations on one machine that run alike are the same there. -/
theorem settled (h : Outcome.Alike False (Machine.Since W reach m) (x n) (y n)) :
    y n = x n ∧ Evolves reach none W m.scope.frames (x.after n).scope.frames := by
  rw [Eval.after]
  generalize x n = o at h ⊢
  generalize y n = o' at h ⊢
  cases h with
  | ok h' => exact ⟨by rw [h'.1], h'.2⟩
  | error h' => exact ⟨by rw [h'.1], h'.2⟩
  | exhausted h' => exact h'.elim

theorem of_settled (h : y n = x n)
    (he : Evolves reach none W m.scope.frames (x.after n).scope.frames) :
    Outcome.Alike False (Machine.Since W reach m) (x n) (y n) := by
  rw [Eval.after] at he
  rw [h]
  generalize x n = o at he ⊢
  cases o with
  | ok => exact .ok ⟨rfl, he⟩
  | error => exact .error ⟨rfl, he⟩

end Outcome.Alike

/-! ## Forms that store a value -/

/-- A declaration gives a name to the frame of the construct around it. -/
theorem Scope.Evolves.declaring (W : Nat → String → Prop) {e : Expr} {x : String}
    (he : e.declares? = some x) (m : Machine) :
    Evolves (e.reach + 1) none W m.scope.frames (m.declaring x).scope.frames := by
  rw [Machine.frames_declaring, Expr.reach, he]
  exact (Evolves.refl ..).bind (Nat.lt_succ_of_le m.scope.home_le_one) _ _

namespace Machine.Stores

variable {m s : Machine} {e c : Expr} {hops : Nat} {x : String} (h : m.Stores e c s hops x)
include h

theorem mem_children : c ∈ e.children := by
  cases h <;> exact List.mem_cons_self

theorem start (W : Nat → String → Prop) :
    Evolves (e.reach + 1) none W m.scope.frames s.scope.frames := by
  cases h with
  | assign hx => exact .refl ..
  | declareAs hx => exact .declaring W rfl m

/-- What the variable holds at first, if it is there, is mutable, and the variable is not hidden. -/
theorem target {u : Value} (hu : valueAt m.scope.frames hops x = some u) :
    u.immutable = false ∧
      ∀ i < hops, (i = 0 → e.assigns? ≠ some x) → valueAt m.scope.frames i x = none := by
  cases h with
  | assign hx =>
    obtain ⟨hhome, ⟨w, hw, himm⟩, hnone⟩ := (assignable_eq_ok_iff ..).1 hx
    rw [hu] at hw
    cases hw
    refine ⟨himm, fun i hi hne => hnone i ?_ hi⟩
    have : i ≠ 0 := fun h0 => hne h0 rfl
    have := m.scope.home_le_one
    omega
  | declareAs hx =>
    rw [hx] at hu
    cases hu

end Machine.Stores

/-! ## The next level -/

namespace Evaluator

variable {lower other : Evaluator}

theorem evaluate_evolves (hl : lower.Scoped W) (e : Expr) (m : Machine) :
    Evolves e.reach none W m.scope.frames ((lower.evaluate e).after m).scope.frames := by
  rw [evaluate, Eval.after_blaming]
  refine Eval.inChild_evolves (E := e.assigns?) ?_
  exact hl (.visit e) m.child

theorem evaluate_eq_of_visit {e : Expr} {m : Machine}
    (h : other.visit e m.child = lower.visit e m.child) :
    other.evaluate e m = lower.evaluate e m := by
  rw [evaluate, evaluate, Eval.blaming, Eval.blaming, Eval.inChild_apply, Eval.inChild_apply, h]

/-- Storing may replace what was new, or else mutable and not hidden, when frames began to evolve. -/
theorem storing_evolves (hl : lower.Scoped W) {reach : Nat} {exposed : Option String}
    {fs : List Frame} {m : Machine} (h : Evolves reach exposed W fs m.scope.frames) {hops : Nat}
    {x : String} {e : Expr} (he : e.reach ≤ reach)
    (hx : ∀ w, valueAt fs hops x = some w → w.immutable = false ∧
      (∀ i < hops, (i = 0 → exposed ≠ some x) → valueAt fs i x = none) ∧
      ∀ v n, lower.evaluate e m = .ok v n → W (depthAt fs hops) x) :
    Evolves reach exposed W fs ((lower.storing hops x e).after m).scope.frames := by
  have hev := h.trans ((evaluate_evolves hl e m).mono he).expose
  rw [Eval.after, storing_apply]
  cases hv : lower.evaluate e m with
  | error f n =>
    rw [Eval.after_error hv] at hev
    exact hev
  | ok v n =>
    rw [Eval.after_ok hv] at hev
    show Evolves reach exposed W fs (n.writing hops x v).scope.frames
    rw [Machine.frames_writing]
    exact hev.set v fun w hw => ⟨(hx w hw).1, (hx w hw).2.1, (hx w hw).2.2 v n hv⟩

/-- What a declaration does once its name is new. -/
theorem visit_declares (rounds : Nat) (hl : lower.Scoped anyVariable) {e : Expr} {x : String}
    {m : Machine} (he : e.declares? = some x) (hx : valueAt m.scope.frames m.scope.home x = none) :
    Evolves 1 (some x) anyVariable (m.declaring x).scope.frames
      ((lower.visitNext rounds e).after m).scope.frames := by
  cases e with
  | declare y pos =>
    cases he
    rw [Eval.after_ok (visitNext_declare hx)]
    exact .refl ..
  | declareAs y init pos =>
    cases he
    rw [Eval.after, visitNext_of_stores lower rounds (.declareAs hx)]
    refine storing_evolves hl (.refl ..) init.reach_le_one fun w hw => ?_
    rw [Machine.frames_declaring, valueAt_bind, hx,
      if_pos ⟨rfl, rfl, m.scope.home_lt_length⟩] at hw
    cases hw
    refine ⟨rfl, fun i hi hne => absurd rfl (hne ?_), fun _ _ _ => trivial⟩
    have := m.scope.home_le_one
    omega
  | _ => cases he

section
variable {rounds : Nat} {r : Request} {m : Machine} (hl : lower.Scoped W)
  (ho : ∀ q n, r.Asks W m q n → other.answer q n = lower.answer q n)
include hl ho

theorem part_alike {c : Expr} (hc : c ∈ r.parts) :
    Eval.Alike False (Machine.Since W r.reach m) (lower.evaluate c) (other.evaluate c) := by
  rintro n _ ⟨rfl, hn⟩
  refine .of_settled (evaluate_eq_of_visit ?_) ?_
  · exact ho (.visit c) _ (.part hc hn)
  · refine hn.trans ((evaluate_evolves hl c n).mono ?_)
    exact Nat.le_trans c.reach_le_one r.one_le_reach

theorem enter_alike (params : List String) (body : Expr) (args : List Value) :
    Eval.Alike False (Machine.Since W r.reach m) (lower.enter params body args)
      (other.enter params body args) := by
  rintro n _ ⟨rfl, hn⟩
  obtain ⟨houter, hev⟩ := Eval.after_declareAll (params.zip args) n.child
  have henter : other.enter params body args n = lower.enter params body args n ∧
      Evolves 1 none W n.scope.frames ((lower.enter params body args).after n).scope.frames := by
    rw [enter, enter, Eval.inChild_apply, Eval.inChild_apply]
    cases hp : Eval.declareAll (params.zip args) n.child with
    | error f p =>
      rw [Eval.after_error hp] at hev
      refine ⟨by rw [Eval.bind_error hp, Eval.bind_error hp], ?_⟩
      refine Eval.inChild_evolves (E := none) ?_
      rw [Eval.after_error (Eval.bind_error hp _)]
      exact hev.mono (by omega)
    | ok _ p =>
      rw [Eval.after_ok hp] at houter hev
      have hbody : other.visit body p = lower.visit body p := by
        refine ho (.visit body) p (.body ?_ ?_)
        · rw [houter]
          exact List.cons_ne_nil _ _
        · rw [houter]
          exact hn
      refine ⟨by rw [Eval.bind_ok hp, Eval.bind_ok hp, hbody], ?_⟩
      refine Eval.inChild_evolves (E := body.assigns?) ?_
      have hlower := (hl (.visit body) p).mono (Nat.succ_le_succ body.reach_le_one)
      rw [Eval.after_bind, hp]
      exact (hev.expose.mono (by omega)).trans hlower
  exact .of_settled henter.1 (hn.trans (henter.2.mono r.one_le_reach))

theorem callNext_settled (callee : Callable) (args : List Value) :
    Eval.Alike False (Machine.Since W r.reach m) (lower.callNext callee args)
      (other.callNext callee args) := by
  refine callNext_alike (Machine.Since.transparent ..).sameConsole ?_ callee args
    fun params body _ => enter_alike hl ho params body args
  rintro callee args n _ ⟨rfl, hn⟩
  refine .of_settled (ho (.call callee args) n (.call hn)) ?_
  exact hn.trans ((hl (.call callee args) n).mono r.one_le_reach)

end

/-- A form that stores a value asks for that value alone. -/
theorem visit_stores_settled (rounds : Nat) {e c : Expr} {m s : Machine} {hops : Nat} {x : String}
    (hl : lower.Scoped W) (hstores : m.Stores e c s hops x)
    (ho : ∀ q n, (Request.visit e).Asks W m q n → other.answer q n = lower.answer q n)
    (hw : ∀ v n, lower.Writes m e hops x v n → W (depthAt m.scope.frames hops) x) :
    other.visitNext rounds e m = lower.visitNext rounds e m ∧
      Evolves (e.reach + 1) e.assigns? W m.scope.frames
        ((lower.visitNext rounds e).after m).scope.frames := by
  have hstart := hstores.start W
  have heval : other.evaluate c s = lower.evaluate c s :=
    evaluate_eq_of_visit (ho (.visit c) _ (.part hstores.mem_children hstart))
  have hvisit (ev : Evaluator) := visitNext_of_stores ev rounds hstores
  have hreach : c.reach ≤ e.reach + 1 := Nat.le_trans c.reach_le_one (Nat.le_add_left 1 _)
  refine ⟨by rw [hvisit, hvisit, storing_apply, storing_apply, heval], ?_⟩
  rw [Eval.after, hvisit]
  refine storing_evolves hl hstart.expose hreach fun u hu => ?_
  obtain ⟨himm, hnone⟩ := hstores.target hu
  exact ⟨himm, hnone, fun v n hv => hw v n ⟨c, s, hstores, hv⟩⟩

/-- One level of nesting answers by what it asks of the level below, and lets frames evolve if that
level does. -/
theorem next_settled (rounds : Nat) (hl : lower.Scoped W) (r : Request) (m : Machine)
    (ho : ∀ q n, r.Asks W m q n → other.answer q n = lower.answer q n)
    (hw : ∀ e hops x v n, r = .visit e → lower.Writes m e hops x v n →
      W (depthAt m.scope.frames hops) x) :
    (other.next rounds).answer r m = (lower.next rounds).answer r m ∧
      Evolves r.reach r.exposed W m.scope.frames
        (((lower.next rounds).answer r).after m).scope.frames := by
  cases r with
  | call callee args => exact (callNext_settled hl ho callee args (.refl ..)).settled
  | visit e =>
    show other.visitNext rounds e m = lower.visitNext rounds e m ∧
      Evolves (e.reach + 1) e.assigns? W m.scope.frames
        ((lower.visitNext rounds e).after m).scope.frames
    by_cases he : e.declares? ≠ none ∨ e.assigns? ≠ none
    · rcases visitNext_cases he m with ⟨f, hrefused⟩ | ⟨x, hd, hnew⟩ | ⟨c, s, hops, x, hstores⟩
      · refine ⟨(hrefused other rounds).trans (hrefused lower rounds).symm, ?_⟩
        rw [Eval.after_error (hrefused lower rounds)]
        exact .refl ..
      · refine ⟨(hnew other rounds).trans (hnew lower rounds).symm, ?_⟩
        rw [Eval.after_ok (hnew lower rounds)]
        exact (Evolves.declaring W hd m).expose
      · exact visit_stores_settled rounds hl hstores ho fun v n h => hw e hops x v n rfl h
    · rw [not_or, Classical.not_not, Classical.not_not] at he
      have halike : Eval.Alike False (Machine.Since W (Request.visit e).reach m)
          (lower.visitNext rounds e) (other.visitNext rounds e) :=
        visitNext_alike (fun x _ => (Machine.Since.transparent ..).sameValue x) (Nat.le_refl _)
          (.inr rfl) he.1 he.2
          (fun c hc => part_alike hl ho hc) fun _ _ => callNext_settled hl ho
      obtain ⟨heq, hev⟩ := (halike (.refl ..)).settled
      exact ⟨heq, hev.expose⟩

theorem ofDepth_scoped (rounds depth : Nat) : (ofDepth rounds depth).Scoped anyVariable := by
  induction depth with
  | zero =>
    intro r m
    cases r <;> exact .refl ..
  | succ depth ih =>
    exact fun r m => (next_settled rounds ih r m (fun _ _ _ => rfl) fun _ _ _ _ _ _ _ => trivial).2

/-- Expressions evaluated in turn let frames evolve. -/
theorem evaluateAll_evolves {ev : Evaluator} (hev : ev.Scoped anyVariable) (es : List Expr)
    (m : Machine) : Evolves 1 none anyVariable m.scope.frames
      ((ev.evaluateAll es).after m).scope.frames := by
  rw [evaluateAll]
  generalize Value.unit = v
  induction es generalizing m v with
  | nil => exact .refl ..
  | cons e es ih =>
    have he := (evaluate_evolves hev e m).mono e.reach_le_one
    rw [List.foldlM_cons, Eval.after_bind]
    cases hr : ev.evaluate e m with
    | error f n =>
      rw [Eval.after_error hr] at he
      exact he
    | ok w n =>
      rw [Eval.after_ok hr] at he
      exact he.trans (ih n w)

end Evaluator

end SmallLisp
