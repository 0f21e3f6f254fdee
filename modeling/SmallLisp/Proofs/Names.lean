import SmallLisp.Proofs.Course
import SmallLisp.Proofs.Trees

/-!
# The names that an evaluation leaves behind

An expression adds no name to the frames around it, unless it is itself a declaration: then the frame of
the construct around it gets the name, last of all, whether the initialiser comes to a value or not. Main
statement: `Evaluator.names_kept`, over every tree of frames, for a single expression, for a declaration
whose initialiser fails, and for the expressions of a run.
-/

set_option autoImplicit false

namespace SmallLisp

open Scope Evaluator

/-- The names that an expression declares in the frame of the construct around it. -/
def Expr.declared (e : Expr) (f : Frame) : List String :=
  match e.declares? with
  | some x => if f.holds x then [] else [x]
  | none => []

/-- The names that some expressions declare in turn, as far as they are evaluated. -/
def Evaluator.declaredInTurn (ev : Evaluator) : List Expr → Machine → List String
  | [], _ => []
  | e :: es, m => e.declared m.scope.frame ++
      match ev.evaluate e m with
      | .ok _ n => ev.declaredInTurn es n
      | .error _ _ => []

theorem Scope.Evolves.map_names {E : Option String} {W : Nat → String → Prop} {fs gs : List Frame}
    (h : Evolves 0 E W fs gs) : gs.map Frame.names = fs.map Frame.names := by
  refine List.ext_getElem? fun k => ?_
  rw [List.getElem?_map, List.getElem?_map]
  exact h.names k (Nat.zero_le k)

namespace Evaluator

variable {lower : Evaluator}

/-- A declaration in a fresh frame finds the frame around it. -/
theorem valueAt_home_child (m : Machine) (x : String) :
    valueAt m.child.scope.frames m.child.scope.home x = m.scope.frame.get? x := rfl

theorem frames_declaring_child (m : Machine) (x : String) :
    (m.child.declaring x).scope.frames =
      .empty :: m.scope.frame.bind x .unit :: m.scope.outer := rfl

/-- The names in the frames around an expression once it has been evaluated. -/
theorem evaluate_names (rounds : Nat) (hl : lower.Scoped anyVariable) (e : Expr) (m : Machine) :
    (((lower.next rounds).evaluate e).after m).scope.frames.map Frame.names =
      (m.scope.frame.names ++ e.declared m.scope.frame) :: m.scope.outer.map Frame.names := by
  cases he : e.declares? with
  | none =>
    have hnext : (lower.next rounds).Scoped anyVariable := fun r n =>
      (next_settled rounds hl r n (fun _ _ _ => rfl) fun _ _ _ _ _ _ _ => trivial).2
    have hev := evaluate_evolves hnext e m
    rw [Expr.reach, he] at hev
    rw [hev.map_names, Expr.declared, he, List.append_nil]
    rfl
  | some x =>
    rw [evaluate, Eval.after_blaming, Eval.after_inChild, Expr.declared, he]
    show ((lower.visitNext rounds e).after m.child).enclosing.scope.frames.map Frame.names = _
    cases hx : m.scope.frame.get? x with
    | some v =>
      have hheld : m.scope.frame.holds x = true := by rw [Frame.holds, hx]; rfl
      rw [Eval.after_error (visitNext_declares_held he (by rw [valueAt_home_child, hx]; rfl))]
      simp only [hheld, if_true, List.append_nil]
      rfl
    | none =>
      have hheld : m.scope.frame.holds x = false := by rw [Frame.holds, hx]; rfl
      have hnew : valueAt m.child.scope.frames m.child.scope.home x = none := hx
      have hev := visit_declares rounds hl he hnew
      rw [frames_declaring_child] at hev
      rw [(hev.enclosing (List.cons_ne_nil _ _)).map_names, List.map_cons, Frame.names_bind]
      simp only [hheld, Bool.false_eq_true, if_false]

theorem evaluateAll_cons (ev : Evaluator) (e : Expr) (es : List Expr) (v : Value) :
    (e :: es).foldlM (fun _ e => ev.evaluate e) v =
      ev.evaluate e >>= fun w => es.foldlM (fun _ e => ev.evaluate e) w := List.foldlM_cons

/-- The names in the frames around some expressions once they have been evaluated in turn. -/
theorem evaluateAll_names (rounds : Nat) (hl : lower.Scoped anyVariable) (es : List Expr)
    (m : Machine) :
    (((lower.next rounds).evaluateAll es).after m).scope.frames.map Frame.names =
      (m.scope.frame.names ++ (lower.next rounds).declaredInTurn es m) ::
        m.scope.outer.map Frame.names := by
  rw [evaluateAll]
  generalize Value.unit = v
  induction es generalizing m v with
  | nil => exact (congrArg (· :: _) (List.append_nil _)).symm
  | cons e es ih =>
    have hnames := evaluate_names rounds hl e m
    rw [evaluateAll_cons, Eval.after_bind, declaredInTurn]
    cases he : (lower.next rounds).evaluate e m with
    | error f n =>
      rw [Eval.after_error he] at hnames
      rw [hnames, List.append_nil]
    | ok w n =>
      rw [Eval.after_ok he] at hnames
      obtain ⟨hframe, houter⟩ := List.cons.inj hnames
      rw [ih n w, hframe, houter, List.append_assoc]

/-! ## Declarations that fail -/

/-- A declaration fails as its initialiser does, in the frames that this has left. -/
theorem evaluate_declareAs_of_error {rounds : Nat} {x : String} {init : Expr} {pos : Position}
    {m n : Machine} {f : Failure} (hx : m.scope.frame.get? x = none)
    (hinit : lower.evaluate init (m.child.declaring x) = .error f n) :
    (lower.next rounds).evaluate (.declareAs x init pos) m = .error (f.blame pos) n.enclosing := by
  have hnew : valueAt m.child.scope.frames m.child.scope.home x = none := hx
  have hvisit : (lower.next rounds).visit (.declareAs x init pos) m.child = .error f n := by
    show lower.visitNext rounds (.declareAs x init pos) m.child = .error f n
    rw [visitNext_of_stores lower rounds (.declareAs hnew), storing_apply, hinit]
  rw [evaluate, Eval.blaming, Eval.inChild_apply, hvisit]
  rfl

/-- The variable is bound when the initialiser fails, and stays so. -/
theorem declared_of_error (hl : lower.Scoped anyVariable) {x : String} {init : Expr}
    {m n : Machine} {f : Failure} (hx : m.scope.frame.get? x = none)
    (hinit : lower.evaluate init (m.child.declaring x) = .error f n) :
    ∃ v, valueAt n.scope.frames 1 x = some v ∧ n.enclosing.scope.frame.get? x = some v := by
  have hev := (evaluate_evolves hl init (m.child.declaring x)).mono init.reach_le_one
  rw [Eval.after_error hinit, frames_declaring_child] at hev
  have hbound : (valueAt n.scope.frames 1 x).isSome := by
    refine hev.bound 1 x ?_
    rw [valueAt_succ, valueAt_zero, Frame.get?_bind, hx, if_pos rfl]
    rfl
  obtain ⟨v, hv⟩ := Option.isSome_iff_exists.1 hbound
  exact ⟨v, hv, valueAt_enclosing hv⟩

/-- The variable holds what it was declared with when its initialiser fails without anything having
written it. -/
theorem unit_of_unwritten {rounds depth : Nat} {x : String} {init : Expr} {m n : Machine}
    {f : Failure} (hx : m.scope.frame.get? x = none)
    (hinit : (ofDepth rounds depth).evaluate init (m.child.declaring x) = .error f n)
    (hwrites : Throughout rounds (WritesOnly fun d y => ¬(d = m.scope.depth ∧ y = x)) depth
      (.visit init) (m.child.declaring x).child) :
    valueAt n.scope.frames 1 x = some .unit := by
  have hunit : valueAt (m.child.declaring x).scope.frames 1 x = some .unit := by
    rw [frames_declaring_child, valueAt_succ, valueAt_zero, Frame.get?_bind, hx, if_pos rfl]
    rfl
  have hkept := Throughout.kept hwrites hunit
  rwa [Eval.after_error hinit] at hkept

end Evaluator

/-! ## Trees of frames -/

/-- An expression leaves every frame of a tree with the names it had, but for what it declares itself
in the frame that it is evaluated for. -/
theorem ScopeTree.Ordered.names_restore {t : ScopeTree} (ht : t.Ordered) {i : Nat} {s s' : Scope}
    (hs : t.scope? i = some s) {new : Frame → List String}
    (hs' : s'.frames.map Frame.names =
      (s.frame.names ++ new s.frame) :: s.outer.map Frame.names)
    {j : Nat} {node : TreeFrame} (hj : t.frames[j]? = some node) :
    ∃ node', (t.restore i s').frames[j]? = some node' ∧ node'.parent = node.parent ∧
      node'.frame.names =
        if j = i then node.frame.names ++ new node.frame else node.frame.names := by
  have hlen : s'.frames.length = s.frames.length := by
    have hmap := congrArg List.length hs'
    rwa [List.length_map, List.length_cons, List.length_map] at hmap
  rcases ht.restore_getElem? hs hlen hj with ⟨hnode, hne⟩ | ⟨k, f, hk, hk', hki, hnode⟩
  · exact ⟨node, hnode, rfl, by rw [if_neg hne]⟩
  · refine ⟨node.put f, hnode, rfl, ?_⟩
    have hnames : (s'.frames.map Frame.names)[k]? = some f.names := by
      rw [List.getElem?_map, hk', Option.map_some]
    rw [hs'] at hnames
    cases k with
    | zero =>
      have hold : s.frame = node.frame := Option.some.inj hk
      rw [if_pos (hki.1 rfl), ← hold]
      exact (Option.some.inj hnames).symm
    | succ k =>
      have hne : j ≠ i := fun h => Nat.succ_ne_zero k (hki.2 h)
      have hold : (s.outer.map Frame.names)[k]? = some node.frame.names := by
        rw [List.getElem?_map, show s.outer[k]? = some node.frame from hk, Option.map_some]
      rw [if_neg hne]
      exact Option.some.inj (hnames.symm.trans hold)

/-- What evaluation does to names, at any limits but none at all. In every tree each frame keeps its
names in their order; only the frame that a declaration is for gets the name declared, as its last. A
declaration whose initialiser fails leaves the name bound to what it held at that moment, which is unit
if nothing has written it. A run adds to the frame that it is for the names of the declarations that it
has evaluated, in turn, whether it comes to an end or fails. -/
theorem Evaluator.names_kept (rounds depth : Nat) :
    (∀ (t : ScopeTree) (i : Nat) (s : Scope), t.Ordered → t.scope? i = some s →
      ∀ (e : Expr) (c : Console) (t' : ScopeTree),
      t' = t.restore i (((ofDepth rounds (depth + 1)).evaluate e).after ⟨s, c⟩).scope →
      t'.frames.length = t.frames.length ∧
      ∀ j node, t.frames[j]? = some node → ∃ node', t'.frames[j]? = some node' ∧
        node'.parent = node.parent ∧
        node'.frame.names =
          if j = i then node.frame.names ++ e.declared node.frame else node.frame.names) ∧
    (∀ (x : String) (init : Expr) (pos : Position) (m n : Machine) (f : Failure),
      m.scope.frame.get? x = none →
      (ofDepth rounds depth).evaluate init (m.child.declaring x) = .error f n →
      (ofDepth rounds (depth + 1)).evaluate (.declareAs x init pos) m =
        .error (f.blame pos) n.enclosing ∧
      ∃ v, valueAt n.scope.frames 1 x = some v ∧ n.enclosing.scope.frame.get? x = some v ∧
        (Throughout rounds (WritesOnly fun d y => ¬(d = m.scope.depth ∧ y = x)) depth
          (.visit init) (m.child.declaring x).child → v = .unit)) ∧
    ∀ (p : Program) (m : Machine),
      (Eval.after (p.run ⟨depth + 1, rounds⟩) m).scope.frames.map Frame.names =
        (m.scope.frame.names ++ (ofDepth rounds (depth + 1)).declaredInTurn p.exprs m) ::
          m.scope.outer.map Frame.names := by
  have hl := ofDepth_scoped rounds depth
  refine ⟨?_, ?_, fun p m => evaluateAll_names rounds hl p.exprs m⟩
  · rintro t i s ht hs e c _ rfl
    exact ⟨ScopeTree.putAll_length .., fun j node hj =>
      ht.names_restore hs (evaluate_names rounds hl e ⟨s, c⟩) hj⟩
  · intro x init pos m n f hx hinit
    refine ⟨evaluate_declareAs_of_error hx hinit, ?_⟩
    obtain ⟨v, hv, hframe⟩ := declared_of_error hl hx hinit
    refine ⟨v, hv, hframe, fun hwrites => ?_⟩
    rw [unit_of_unwritten hx hinit hwrites] at hv
    exact (Option.some.inj hv).symm

/-- A declaration by a variable that is not there, in the second frame of a tree of two. -/
theorem Evaluator.names_kept_unbound_initialiser :
    let t := (ScopeTree.root .empty).child 0
    let s : Scope := ⟨.empty, [.empty]⟩
    let m : Machine := ⟨s, .reading []⟩
    let pos := Position.start
    let e := Expr.declareAs "x" (.name "y" pos) pos
    (t.Ordered ∧ t.scope? 1 = some s ∧
      ∃ node', (t.restore 1 (((ofDepth 1 2).evaluate e).after m).scope).frames[1]? = some node' ∧
        node'.parent = some 0 ∧ node'.frame.names = ["x"]) ∧
    (∃ f n, (ofDepth 1 1).evaluate (.name "y" pos) (m.child.declaring "x") = .error f n ∧
      n.enclosing.scope.frame.get? "x" = some .unit) := by
  intro t s m pos e
  have ht : t.Ordered := (ScopeTree.Ordered.root .empty).child Nat.one_pos
  obtain ⟨htree, hfail, -⟩ := names_kept 1 1
  refine ⟨⟨ht, rfl, ?_⟩, _, _, rfl, ?_⟩
  · obtain ⟨-, hnodes⟩ := htree t 1 s ht rfl e (.reading []) _ rfl
    exact hnodes 1 ⟨.empty, some 0⟩ rfl
  · obtain ⟨-, v, -, hv, hunit⟩ := hfail "x" (.name "y" pos) pos m _ _ rfl rfl
    rw [hv, hunit ⟨?_, fun _ _ => rfl⟩]
    intro e' hops y w p he hw
    cases he
    obtain ⟨c, p', hstores, -⟩ := hw
    cases hstores

end SmallLisp
