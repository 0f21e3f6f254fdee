import SmallLisp.Proofs.Course

/-!
# Parameters and the variables of the caller

A call evaluates the body in a frame for the parameters, within the frames of the caller. As long as that
frame is around, assignments to a parameter stop there (`Request.Course.finds`), and the caller's
variables of these names stay as they are. The body itself is evaluated right in that frame, while an
assignment looks from one frame further out: a body that is an assignment to a parameter goes past it to
the caller. Main statement: `Evaluator.parameters_shadow`, which says so for every body and where the
exception leads.
-/

set_option autoImplicit false

namespace SmallLisp

open Scope Evaluator

/-- The machine in a frame for parameters with these values. -/
def Machine.entering (m : Machine) (params : List String) (args : List Value) : Machine :=
  { m with scope := ⟨⟨(params.zip args).map fun (x, v) => ⟨x, v⟩⟩, m.scope.frames⟩ }

/-- Declaring different new names succeeds. -/
theorem Eval.declareAll_new {vs : List (String × Value)} {m : Machine}
    (hvs : (vs.map Prod.fst).Nodup)
    (hm : ∀ x ∈ vs.map Prod.fst, m.scope.frame.get? x = none) :
    declareAll vs m = .ok () { m with
      scope := ⟨⟨m.scope.frame.bindings ++ vs.map fun (x, v) => ⟨x, v⟩⟩, m.scope.outer⟩ } := by
  induction vs generalizing m with
  | nil => simp [declareAll, pure, EStateM.pure]
  | cons p vs ih =>
    obtain ⟨x, v⟩ := p
    rw [List.map_cons, List.nodup_cons] at hvs
    have hx : valueAt m.scope.frames 0 x = none := hm x List.mem_cons_self
    rw [declareAll_cons, bind_ok (declare_new hx v), ih hvs.2]
    · simp [Scope.modify, Frame.bind]
    · intro y hy
      have hne : x ≠ y := by
        rintro rfl
        exact hvs.1 hy
      show (m.scope.frame.bind x v).get? y = none
      rw [Frame.get?_bind, hm y (List.mem_cons_of_mem _ hy), if_neg hne]
      rfl

section
variable {params : List String} {args : List Value} (hlen : args.length = params.length)
include hlen

theorem Machine.entering_names (m : Machine) : (m.entering params args).scope.frame.names = params := by
  show ((params.zip args).map fun (x, v) => (⟨x, v⟩ : Binding)).map (·.name) = params
  rw [List.map_map]
  exact List.map_fst_zip (Nat.le_of_eq hlen.symm)

theorem Machine.entering_bound (m : Machine) {p : String} (hp : p ∈ params) :
    (valueAt (m.entering params args).scope.frames 0 p).isSome := by
  rw [← Machine.entering_names hlen m] at hp
  exact Frame.get?_isSome_iff.2 hp

/-- A call evaluates the body in the frame of the parameters. -/
theorem Evaluator.call_function {lower : Evaluator} (rounds : Nat) (hparams : params.Nodup)
    (body : Expr) (m : Machine) :
    (lower.next rounds).call (.function params body) args m =
      match lower.visit body (m.entering params args) with
      | .ok v n => .ok v n.enclosing
      | .error f n => .error f n.enclosing := by
  have hnames : (params.zip args).map Prod.fst = params :=
    List.map_fst_zip (Nat.le_of_eq hlen.symm)
  have haccepts : (Callable.function params body).arity.accepts args.length = true :=
    Arity.accepts_exactly.2 hlen
  have hcount : checkCount (Callable.function params body).label
      (Callable.function params body).arity args.length m = .ok () m := by
    rw [checkCount, if_pos haccepts]
    rfl
  have hdeclare : Eval.declareAll (params.zip args) m.child = .ok () (m.entering params args) :=
    Eval.declareAll_new (by rwa [hnames]) fun _ _ => rfl
  show lower.callNext (.function params body) args m = _
  rw [callNext_eq, Eval.bind_ok hcount]
  show lower.enter params body args m = _
  rw [enter, Eval.inChild_apply, Eval.bind_ok hdeclare]
  cases lower.visit body (m.entering params args) <;> rfl

theorem Evaluator.after_call_function {lower : Evaluator} (rounds : Nat) (hparams : params.Nodup)
    (body : Expr) (m : Machine) :
    ((lower.next rounds).call (.function params body) args).after m =
      ((lower.visit body).after (m.entering params args)).enclosing := by
  rw [Eval.after, Evaluator.call_function hlen rounds hparams, Eval.after]
  cases lower.visit body (m.entering params args) <;> rfl

/-- The variables of the caller that parameters hide stay as they are, unless the body is itself an
assignment to the parameter. -/
theorem Evaluator.call_function_hides (rounds depth : Nat) (hparams : params.Nodup) {p : String}
    (hp : p ∈ params) {body : Expr} (hbody : body.assigns? ≠ some p) {m : Machine} {hops : Nat}
    {v : Value} (hv : m.scope.find? p = some (hops, v)) :
    valueAt (((ofDepth rounds depth).call (.function params body) args).after m).scope.frames hops p =
      some v := by
  have hcaller : valueAt m.scope.frames hops p = some v := (findIn_eq_some_iff.1 hv).1
  cases depth with
  | zero => exact hcaller
  | succ depth =>
    have hev := ofDepth_scoped rounds depth (.visit body) (m.entering params args)
    have hkept : valueAt ((((ofDepth rounds depth).visit body).after
        (m.entering params args)).scope.frames) (hops + 1) p = some v :=
      hev.hidden (Nat.succ_pos hops) (fun _ => hbody) (Machine.entering_bound hlen m hp) hcaller
    show valueAt ((((ofDepth rounds depth).next rounds).call (.function params body) args).after
      m).scope.frames hops p = some v
    rw [after_call_function hlen rounds hparams]
    generalize ((ofDepth rounds depth).visit body).after (m.entering params args) = n at hev hkept ⊢
    exact valueAt_enclosing hkept

end

/-! ## Where assignments to a parameter lead -/

/-- An assignment of a name finds it in the frame at this depth, which holds it, or in one further in
that holds it too: in that frame itself unless there is one further in. -/
def Machine.Finds (n : Machine) (p : String) (depth : Nat) : Prop :=
  ∃ j k v, depthAt n.scope.frames j = depth ∧ (valueAt n.scope.frames j p).isSome ∧
    n.scope.home ≤ k ∧ k ≤ j ∧ valueAt n.scope.frames k p = some v ∧
    ((∀ i, n.scope.home ≤ i → i < j → valueAt n.scope.frames i p = none) → k = j) ∧
    n.scope.assignable n.scope.home p = if v.immutable then .error (.immutable p) else .ok k

theorem Scope.assignable_of_findIn {s : Scope} {hops k : Nat} {p : String} {v : Value}
    (h : findIn p (s.frames.drop hops) = some (k, v)) :
    s.assignable hops p = if v.immutable then .error (.immutable p) else .ok (hops + k) := by
  rw [assignable, h]

/-- Within a frame that holds a name, assignments of the name get no further than that frame. -/
theorem Machine.Within.finds {j : Nat} {m n : Machine} (h : m.Within j n) (hj : 0 < j) {p : String}
    (hp : (valueAt m.scope.frames 0 p).isSome) : n.Finds p m.scope.depth := by
  have hbound : (valueAt n.scope.frames j p).isSome := by
    have := h.bound 0 p hp
    rwa [valueAt_drop] at this
  have hdepth : depthAt n.scope.frames j = m.scope.depth := by
    have hlen : n.scope.frames.length - j = m.scope.outer.length + 1 := by
      rw [← List.length_drop]
      exact h.length
    show n.scope.frames.length - (j + 1) = m.scope.outer.length
    omega
  have hhome : n.scope.home ≤ j := Nat.le_trans n.scope.home_le_one hj
  cases hf : findIn p (n.scope.frames.drop n.scope.home) with
  | none =>
    have hnone := findIn_eq_none_iff.1 hf (j - n.scope.home)
    rw [valueAt_drop, Nat.add_sub_cancel' hhome] at hnone
    rw [hnone] at hbound
    cases hbound
  | some found =>
    obtain ⟨k, v⟩ := found
    obtain ⟨hv, hnearer⟩ := findIn_eq_some_iff.1 hf
    rw [valueAt_drop] at hv
    have hle : n.scope.home + k ≤ j := by
      refine Nat.le_of_not_lt fun hlt => ?_
      have hnone := hnearer (j - n.scope.home) (by omega)
      rw [valueAt_drop, Nat.add_sub_cancel' hhome] at hnone
      rw [hnone] at hbound
      cases hbound
    refine ⟨j, n.scope.home + k, v, hdepth, hbound, Nat.le_add_right _ _, hle, hv, fun hnone => ?_,
      assignable_of_findIn hf⟩
    rcases Nat.lt_or_eq_of_le hle with hlt | heq
    · rw [hnone _ (Nat.le_add_right _ _) hlt] at hv
      cases hv
    · exact heq

/-- In the course of a body, every assignment of a parameter finds it, but for the body itself. -/
theorem Evaluator.finds_throughout (rounds depth : Nat) {m : Machine} {p : String}
    (hp : (valueAt m.scope.frames 0 p).isSome) (body : Expr) :
    Throughout rounds (fun _ q n => ∀ value pos, q = .visit (.assign p value pos) →
      (q = .visit body ∧ n = m) ∨ n.Finds p m.scope.depth) depth (.visit body) m := by
  refine .of_course (fun _ q n hq value pos hassign => ?_) depth
  obtain ⟨j, hwithin, hj | hsame | ⟨callee, args, hcall⟩⟩ := hq
  · exact .inr (hwithin.finds hj hp)
  · exact .inl hsame
  · rw [hcall] at hassign
    cases hassign

/-! ## Bodies that are assignments -/

section
variable {params : List String} {args : List Value} {p : String} {value : Expr} {pos : Position}
  {m : Machine} (hparams : params.Nodup) (hlen : args.length = params.length)

/-- From the frame of the parameters an assignment looks where the caller would find the name. -/
theorem Machine.assignable_entering (m : Machine) (params : List String) (args : List Value)
    (p : String) :
    (m.entering params args).scope.assignable (m.entering params args).scope.home p =
      match m.scope.find? p with
      | none => .error (.noTarget p)
      | some (hops, v) => if v.immutable then .error (.immutable p) else .ok (1 + hops) := rfl

include hparams hlen

/-- A body that assigns a parameter, refused for what the caller has by this name. -/
theorem Evaluator.call_assign_refused (rounds depth : Nat) {f : Fault}
    (hp : (m.entering params args).scope.assignable (m.entering params args).scope.home p =
      .error f) :
    (ofDepth rounds (depth + 2)).call (.function params (.assign p value pos)) args m =
      .error (.ofFault f) m := by
  have hvisit : (ofDepth rounds (depth + 1)).visit (.assign p value pos) (m.entering params args) =
      .error (.ofFault f) (m.entering params args) :=
    visitNext_assign_refused (ofDepth rounds depth) rounds value pos hp
  refine (call_function hlen rounds hparams _ m).trans ?_
  rw [hvisit]
  rfl

/-- A body that assigns a parameter and a caller that has a mutable variable of this name, which is
the one that is assigned. -/
theorem Evaluator.call_assign_mutable (rounds depth : Nat) {hops : Nat} {w v : Value} {n : Machine}
    (hp : m.scope.find? p = some (hops, w)) (hw : w.immutable = false)
    (hv : (ofDepth rounds depth).evaluate value (m.entering params args) = .ok v n) :
    ∃ n', (ofDepth rounds (depth + 2)).call (.function params (.assign p value pos)) args m =
        .ok .unit n' ∧ valueAt n'.scope.frames hops p = some v := by
  have htarget : (m.entering params args).scope.assignable (m.entering params args).scope.home p =
      .ok (1 + hops) := by
    rw [Machine.assignable_entering, hp]
    exact if_neg (by rw [hw]; exact Bool.false_ne_true)
  have hwrites : (ofDepth rounds depth).Writes (m.entering params args) (.assign p value pos)
      (1 + hops) p v n := ⟨_, _, .assign htarget, hv⟩
  have hvisit : (ofDepth rounds (depth + 1)).visit (.assign p value pos) (m.entering params args) =
      .ok .unit (n.writing (1 + hops) p v) := visitNext_of_writes rounds hwrites
  refine ⟨(n.writing (1 + hops) p v).enclosing, ?_, ?_⟩
  · refine (call_function hlen rounds hparams _ m).trans ?_
    rw [hvisit]
  · have hcaller : valueAt m.scope.frames hops p = some w := (findIn_eq_some_iff.1 hp).1
    have hev := evaluate_evolves (ofDepth_scoped rounds depth) value (m.entering params args)
    rw [Eval.after_ok hv] at hev
    have hbound : (valueAt n.scope.frames (1 + hops) p).isSome := by
      refine hev.bound (1 + hops) p ?_
      rw [valueAt_one_add]
      show (valueAt m.scope.frames hops p).isSome
      rw [hcaller]
      rfl
    have hwritten := Machine.valueAt_writing hbound v
    refine valueAt_enclosing ?_
    rwa [valueAt_one_add] at hwritten

end

/-- Parameters shadow the caller's variables for assignment, whatever the body is and however deep an
assignment lies in it, unless the body is itself an assignment to the parameter. Such a body assigns
what the caller would: it is refused if the caller has no variable of this name, or an immutable one,
and otherwise overwrites the caller's. -/
theorem Evaluator.parameters_shadow (rounds : Nat) {params : List String} {args : List Value}
    (hparams : params.Nodup) (hlen : args.length = params.length) {p : String} (hp : p ∈ params)
    (body : Expr) (m : Machine) :
    (∀ depth, (ofDepth rounds (depth + 1)).call (.function params body) args m =
      match (ofDepth rounds depth).visit body (m.entering params args) with
      | .ok v n => .ok v n.enclosing
      | .error f n => .error f n.enclosing) ∧
    (∀ depth, Throughout rounds (fun _ q n => ∀ value pos, q = .visit (.assign p value pos) →
      (q = .visit body ∧ n = m.entering params args) ∨ n.Finds p (m.scope.depth + 1))
      depth (.visit body) (m.entering params args)) ∧
    (body.assigns? ≠ some p → ∀ depth hops v, m.scope.find? p = some (hops, v) →
      valueAt (((ofDepth rounds depth).call (.function params body) args).after m).scope.frames hops
        p = some v) ∧
    ∀ value pos, body = .assign p value pos → ∀ depth,
      (m.scope.find? p = none →
        (ofDepth rounds (depth + 2)).call (.function params body) args m =
          .error (.ofFault (.noTarget p)) m) ∧
      ∀ hops w, m.scope.find? p = some (hops, w) →
        (w.immutable = true →
          (ofDepth rounds (depth + 2)).call (.function params body) args m =
            .error (.ofFault (.immutable p)) m) ∧
        (w.immutable = false → ∀ v n,
          (ofDepth rounds depth).evaluate value (m.entering params args) = .ok v n →
          ∃ n', (ofDepth rounds (depth + 2)).call (.function params body) args m = .ok .unit n' ∧
            valueAt n'.scope.frames hops p = some v) := by
  refine ⟨fun depth => call_function hlen rounds hparams body m, fun depth => ?_, ?_, ?_⟩
  · exact finds_throughout rounds depth (Machine.entering_bound hlen m hp) body
  · exact fun hbody depth hops v hv => call_function_hides hlen rounds depth hparams hp hbody hv
  · rintro value pos rfl depth
    refine ⟨fun hnone => ?_, fun hops w hw => ⟨fun himm => ?_, fun himm v n hv => ?_⟩⟩
    · refine call_assign_refused hparams hlen rounds depth ?_
      rw [Machine.assignable_entering, hnone]
    · refine call_assign_refused hparams hlen rounds depth ?_
      rw [Machine.assignable_entering, hw]
      exact if_pos himm
    · exact call_assign_mutable hparams hlen rounds depth hw himm hv

/-- A caller with a variable `x`, and functions of a parameter `x` that assign it. -/
theorem Evaluator.parameters_shadow_in_sequence :
    let pos := Position.start
    let assignment := Expr.assign "x" (.literal (.int 5) pos) pos
    let sequence := Expr.call (.operator .sequence) [assignment] pos
    let m : Machine := ⟨.root ⟨[⟨"x", .int 10⟩]⟩, .reading []⟩
    (["x"].Nodup ∧ [Value.unit].length = ["x"].length ∧ "x" ∈ ["x"]) ∧
    valueAt (((ofDepth 1 3).call (.function ["x"] sequence) [.unit]).after m).scope.frames 0 "x" =
      some (.int 10) ∧
    ∃ n', (ofDepth 1 3).call (.function ["x"] assignment) [.unit] m = .ok .unit n' ∧
      valueAt n'.scope.frames 0 "x" = some (.int 5) := by
  intro pos assignment sequence m
  have hparams : ["x"].Nodup := by decide
  have hlen : [Value.unit].length = ["x"].length := rfl
  have hp : "x" ∈ ["x"] := List.mem_cons_self
  refine ⟨⟨hparams, hlen, hp⟩, ?_, ?_⟩
  · obtain ⟨-, -, hhides, -⟩ := parameters_shadow 1 hparams hlen hp sequence m
    exact hhides (by decide) 3 0 (.int 10) rfl
  · obtain ⟨-, -, -, hassign⟩ := parameters_shadow 1 hparams hlen hp assignment m
    exact ((hassign _ _ rfl 1).2 0 (.int 10) rfl).2 rfl (.int 5) _ rfl

/-- A parameter does not shadow the caller's variable from a body that is an assignment to it. -/
theorem Evaluator.parameter_not_shadowed :
    ¬ ∀ (rounds depth : Nat) (params : List String) (args : List Value) (body : Expr) (m : Machine)
      (p : String) (hops : Nat) (v : Value), params.Nodup → args.length = params.length →
      p ∈ params → m.scope.find? p = some (hops, v) →
      valueAt (((ofDepth rounds depth).call (.function params body) args).after m).scope.frames hops
        p = some v := by
  intro h
  have hkept := h 1 3 ["x"] [.unit] (.assign "x" (.literal (.int 5) .start) .start)
    ⟨.root ⟨[⟨"x", .int 10⟩]⟩, .reading []⟩ "x" 0 (.int 10) (by decide) rfl List.mem_cons_self rfl
  have hwritten : some (Value.int 5) = some (Value.int 10) := hkept
  cases hwritten

end SmallLisp
