import SmallLisp.Proofs.Limits

/-!
# Empty frames go unnoticed

Frames are told apart by how far out they are, but names are looked up by what frames hold. One more
frame in between that holds nothing, behind the frames that may still get names, changes neither what
an evaluation comes to nor what it does to the other frames (`Evaluator.ofDepth_overlooks`). An
expression that is no declaration adds names to no frame around it, so a fresh frame around it makes no
difference. Main statement: `Evaluator.inChild_evaluate`.
-/

set_option autoImplicit false

namespace SmallLisp

open Scope

/-! ## One more frame in between -/

/-- The second frames are the first with an empty one put in behind the so many innermost ones. There
are frames further out. -/
inductive Scope.Spaced : Nat → List Frame → List Frame → Prop
  | here {fs : List Frame} (h : fs ≠ []) : Spaced 0 fs (.empty :: fs)
  | behind {k : Nat} {fs gs : List Frame} (f : Frame) (h : Spaced k fs gs) :
    Spaced (k + 1) (f :: fs) (f :: gs)

/-- How far out a frame is once there is one more behind the so many innermost ones. -/
def Scope.past : Nat → Nat → Nat
  | 0, hops => hops + 1
  | _ + 1, 0 => 0
  | k + 1, hops + 1 => past k hops + 1

namespace Scope.Spaced

variable {k : Nat} {fs gs : List Frame}

theorem ne_nil (h : Spaced k fs gs) : fs ≠ [] ∧ gs ≠ [] := by
  cases h with
  | here h => exact ⟨h, List.cons_ne_nil _ _⟩
  | behind f h => exact ⟨List.cons_ne_nil f _, List.cons_ne_nil f _⟩

theorem tail (h : Spaced (k + 1) fs gs) : Spaced k fs.tail gs.tail := by
  cases h with
  | behind f h => exact h

theorem findIn_eq (h : Spaced k fs gs) (x : String) :
    findIn x gs = (findIn x fs).map fun (hops, v) => (past k hops, v) := by
  induction h with
  | here => rfl
  | @behind k fs gs f h ih =>
    rw [findIn, findIn, ih]
    cases f.get? x with
    | some v => rfl
    | none => cases findIn x fs <;> rfl

theorem valueAt_eq (h : Spaced k fs gs) (hops : Nat) (x : String) :
    valueAt gs (past k hops) x = valueAt fs hops x := by
  induction h generalizing hops with
  | here => rfl
  | behind f h ih =>
    cases hops with
    | zero => rfl
    | succ hops => exact ih hops

theorem modify (h : Spaced k fs gs) (hops : Nat) (change : Frame → Frame) :
    Spaced k (fs.modify hops change) (gs.modify (past k hops) change) := by
  induction h generalizing hops with
  | @here fs h =>
    rw [past, List.modify_succ_cons]
    refine .here fun hnil => h ?_
    have hlength := congrArg List.length hnil
    rw [List.length_modify] at hlength
    exact List.length_eq_zero_iff.1 hlength
  | behind f h ih =>
    cases hops with
    | zero => exact .behind (change f) h
    | succ hops =>
      rw [past, List.modify_succ_cons, List.modify_succ_cons]
      exact .behind f (ih hops)

end Scope.Spaced

/-- The second machine is the first with an empty frame in between. -/
structure Machine.Spaced (k : Nat) (m n : Machine) : Prop where
  frames : Scope.Spaced k m.scope.frames n.scope.frames
  console : m.console = n.console

namespace Machine.Spaced

variable {k : Nat} {m n : Machine}

theorem of_child (m : Machine) : Spaced 0 m m.child := ⟨.here (List.cons_ne_nil _ _), rfl⟩

theorem eq_child (h : Spaced 0 m n) : n = m.child := by
  obtain ⟨⟨frame, outer⟩, console⟩ := n
  obtain ⟨hframes, rfl⟩ := h
  cases hframes
  rfl

theorem child (h : Spaced k m n) : Spaced (k + 1) m.child n.child := ⟨.behind _ h.frames, h.console⟩

theorem outer (h : Spaced (k + 1) m n) : Scope.Spaced k m.scope.outer n.scope.outer := h.frames.tail

theorem enclosing (h : Spaced (k + 1) m n) : Spaced k m.enclosing n.enclosing := by
  obtain ⟨hm, hn⟩ := h.outer.ne_nil
  refine ⟨?_, h.console⟩
  rw [Machine.enclosing, Machine.enclosing, frames_enclosing _ hm, frames_enclosing _ hn]
  exact h.outer

theorem home (h : Spaced (k + 1) m n) : m.scope.home = 1 ∧ n.scope.home = 1 := by
  obtain ⟨hm, hn⟩ := h.outer.ne_nil
  simp [Scope.home, hm, hn]

theorem modify (h : Spaced k m n) (hops : Nat) (change : Frame → Frame) :
    Spaced k { m with scope := m.scope.modify hops change }
      { n with scope := n.scope.modify (past k hops) change } := by
  refine ⟨?_, h.console⟩
  rw [frames_modify, frames_modify]
  exact h.frames.modify hops change

theorem transparent (k : Nat) : Transparent (Spaced k) where
  value m n h x := by
    rw [value?, value?, find?, find?, h.frames.findIn_eq]
    cases findIn x m.scope.frames <;> rfl
  console m n h := h.console
  talk m n h c := ⟨h.frames, rfl⟩

theorem sameWrites (k : Nat) (x : String) : SameWrites (Spaced k) (past k) x where
  writing _ _ h hops v := h.modify hops (·.set x v)

/-- The frame that declarations are for is in front of the empty one. -/
theorem sameDeclaration (k : Nat) (x : String) :
    SameDeclaration (Spaced (k + 2)) (past (k + 2)) x where
  toSameWrites := sameWrites (k + 2) x
  home m n h := by
    rw [h.home.1, h.home.2]
    rfl
  held m n h := by
    rw [h.home.1, h.home.2]
    exact h.frames.valueAt_eq 1 x
  declaring m n h := by
    have hmodify := h.modify 1 (·.bind x .unit)
    rw [Machine.declaring, Machine.declaring, h.home.1, h.home.2]
    exact hmodify

/-- An assignment finds the same variable, or is refused for the same fault. -/
theorem sameAssignment (k : Nat) (x : String) :
    SameAssignment (Spaced (k + 1)) (past (k + 1)) x where
  toSameWrites := sameWrites (k + 1) x
  assignable m n h := by
    obtain ⟨hm, hn⟩ := h.home
    have hfind : findIn x (n.scope.frames.drop 1) =
        (findIn x (m.scope.frames.drop 1)).map fun (hops, v) => (past k hops, v) :=
      h.outer.findIn_eq x
    rw [hm, hn, Scope.assignable, Scope.assignable, hfind]
    cases findIn x (m.scope.frames.drop 1) with
    | none => rfl
    | some found =>
      obtain ⟨hops, v⟩ := found
      have hpast : 1 + past k hops = past (k + 1) (1 + hops) := by
        rw [Nat.add_comm 1 hops, past, Nat.add_comm]
      cases hv : v.immutable <;> simp [hv, hpast, Except.map]

end Machine.Spaced

/-! ## Evaluators that overlook it -/

namespace Evaluator

/-- The evaluator answers alike whether there is an empty frame in between or not, as long as that is
behind the frames that may get names. -/
def Overlooks (ev : Evaluator) : Prop :=
  ∀ r k, r.reach ≤ k → Eval.Alike False (Machine.Spaced k) (ev.answer r) (ev.answer r)

variable {lower : Evaluator}

theorem evaluate_spaced (hl : lower.Overlooks) {e : Expr} {k : Nat} (he : e.reach ≤ k) :
    Eval.Alike False (Machine.Spaced k) (lower.evaluate e) (lower.evaluate e) := by
  have hvisit : Eval.Alike False (Machine.Spaced (k + 1)) (lower.visit e) (lower.visit e) :=
    hl (.visit e) (k + 1) (Nat.succ_le_succ he)
  exact (hvisit.inChild (fun _ _ h => h.child) fun _ _ h => h.enclosing).blaming _

theorem enter_spaced (hl : lower.Overlooks) {k : Nat} (hk : 1 ≤ k) (params : List String)
    (body : Expr) (args : List Value) :
    Eval.Alike False (Machine.Spaced k) (lower.enter params body args)
      (lower.enter params body args) := by
  have hbody : (Request.visit body).reach ≤ k + 1 :=
    Nat.succ_le_succ (Nat.le_trans body.reach_le_one hk)
  have hdeclare : Eval.Alike False (Machine.Spaced (k + 1)) (Eval.declareAll (params.zip args))
      (Eval.declareAll (params.zip args)) :=
    .declareAll _ (fun _ _ h => h.frames.valueAt_eq 0) fun _ _ h x v => h.modify 0 (·.bind x v)
  have hrun := hdeclare.bind fun _ => hl (.visit body) (k + 1) hbody
  exact hrun.inChild (fun _ _ h => h.child) fun _ _ h => h.enclosing

theorem callNext_spaced (hl : lower.Overlooks) {k : Nat} (hk : 1 ≤ k) (callee : Callable)
    (args : List Value) :
    Eval.Alike False (Machine.Spaced k) (lower.callNext callee args)
      (lower.callNext callee args) :=
  callNext_alike (Machine.Spaced.transparent k).sameConsole
    (fun callee args => hl (.call callee args) k hk) callee args
    fun params body _ => enter_spaced hl hk params body args

theorem next_overlooks (rounds : Nat) (hl : lower.Overlooks) : (lower.next rounds).Overlooks := by
  intro r k hk
  have hk' : 1 ≤ k := Nat.le_trans r.one_le_reach hk
  cases r with
  | call callee args => exact callNext_spaced hl hk' callee args
  | visit e =>
    show Eval.Alike False (Machine.Spaced k) (lower.visitNext rounds e) (lower.visitNext rounds e)
    have hparts : ∀ c ∈ e.children,
        Eval.Alike False (Machine.Spaced k) (lower.evaluate c) (lower.evaluate c) :=
      fun c _ => evaluate_spaced hl (Nat.le_trans c.reach_le_one hk')
    -- A form that binds or assigns a name reaches out to the second frame at most, so that it does
    -- not meet the empty one or finds nothing in it.
    cases hd : e.declares? with
    | some x =>
      obtain ⟨k, rfl⟩ : ∃ j, k = j + 2 := by
        refine ⟨k - 2, (Nat.sub_add_cancel ?_).symm⟩
        simpa [Request.reach, Expr.reach, hd] using hk
      exact visitNext_declares_alike hparts hd (Machine.Spaced.sameDeclaration k x)
    | none =>
      cases ha : e.assigns? with
      | some x =>
        obtain ⟨k, rfl⟩ : ∃ j, k = j + 1 := ⟨k - 1, (Nat.sub_add_cancel hk').symm⟩
        exact visitNext_assigns_alike hparts ha (Machine.Spaced.sameAssignment k x)
      | none =>
        exact visitNext_alike (fun x _ => (Machine.Spaced.transparent k).sameValue x) (Nat.le_refl _)
          (.inr rfl) hd ha hparts fun _ _ => callNext_spaced hl hk'

theorem ofDepth_overlooks (rounds depth : Nat) : (ofDepth rounds depth).Overlooks := by
  induction depth with
  | zero =>
    intro r k _
    cases r <;> exact .throw _
  | succ depth ih => exact next_overlooks rounds ih

/-! ## Fresh frames that may as well not be there -/

end Evaluator

/-- A computation that comes to the same in a fresh frame, and leaves that frame empty, comes to the
same without it. -/
theorem Eval.inChild_eq {α : Type} {x : Eval α} (hx : Eval.Alike False (Machine.Spaced 0) x x) :
    Eval.inChild x = x := by
  funext m
  have halike := hx (.of_child m)
  rw [Eval.inChild_apply]
  generalize x m = o at halike ⊢
  generalize x m.child = p at halike ⊢
  cases halike with
  | ok h => rw [h.eq_child]; rfl
  | error h => rw [h.eq_child]; rfl
  | exhausted h => exact h.elim

namespace Evaluator

theorem evaluate_frameless (rounds depth : Nat) {e : Expr} (he : e.declares? = none) :
    Eval.Alike False (Machine.Spaced 0) ((ofDepth rounds depth).evaluate e)
      ((ofDepth rounds depth).evaluate e) := by
  refine evaluate_spaced (ofDepth_overlooks rounds depth) (Nat.le_of_eq ?_)
  rw [Expr.reach, he]
  rfl

theorem inChild_evaluate (rounds depth : Nat) {e : Expr} (he : e.declares? = none) :
    Eval.inChild ((ofDepth rounds depth).evaluate e) = (ofDepth rounds depth).evaluate e :=
  Eval.inChild_eq (evaluate_frameless rounds depth he)

end Evaluator

end SmallLisp
