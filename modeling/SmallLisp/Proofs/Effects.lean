import SmallLisp.Proofs.Names

/-!
# Expressions without effects

An expression that assigns nothing and calls nothing by name, in none of its parts, leaves the machine as
it was, whatever it comes to: what its parts declare goes to frames that are thrown away again. If it is
a declaration itself, its own variable is all that is added. Main statement:
`Evaluator.evaluate_effectless`.
-/

set_option autoImplicit false

namespace SmallLisp

open Scope

/-- Somewhere in it, the expression assigns a variable or calls what a name stands for. -/
inductive Expr.Acts : Expr → Prop
  | assigns {e : Expr} (h : e.assigns? ≠ none) : Acts e
  | calls {e : Expr} (h : e.calls? ≠ none) : Acts e
  | part {e c : Expr} (hc : c ∈ e.children) (h : Acts c) : Acts e

/-- An expression does nothing if its node is of another sort and its parts do nothing. -/
theorem Expr.not_acts {e : Expr} (hassigns : e.assigns? = none) (hcalls : e.calls? = none)
    (hparts : ∀ c ∈ e.children, ¬ c.Acts) : ¬ e.Acts := by
  intro h
  cases h with
  | assigns h => exact h hassigns
  | calls h => exact h hcalls
  | part hc h => exact hparts _ hc h

/-- The frame with more variables behind its own. -/
def Frame.extend (f : Frame) (new : List Binding) : Frame := ⟨f.bindings ++ new⟩

/-- The machine with more variables in its innermost frame. -/
def Machine.gaining (m : Machine) (new : List Binding) : Machine :=
  { m with scope := ⟨m.scope.frame.extend new, m.scope.outer⟩ }

@[simp] theorem Machine.gaining_nil (m : Machine) : m.gaining [] = m := by
  simp [gaining, Frame.extend]

/-- A variable that has just been made is given another value. -/
theorem Frame.set_bind {f : Frame} {x : String} (h : f.get? x = none) (u v : Value) :
    (f.bind x u).set x v = f.bind x v := by
  have hold : f.bindings.map (fun b => if b.name = x then ⟨b.name, v⟩ else b) = f.bindings := by
    refine (List.map_congr_left fun b hb => if_neg fun hbx => ?_).trans (List.map_id _)
    have hheld : x ∈ f.names := hbx ▸ List.mem_map_of_mem hb
    rw [← get?_isSome_iff, h] at hheld
    cases hheld
  simp [set, bind, hold]

/-- A computation that runs like itself on the machines with a property leads from each to such a
machine. -/
theorem Eval.Alike.after {α : Type} {P : Machine → Prop} {x : Eval α}
    (h : Eval.Alike False (fun n p => n = p ∧ P n) x x) {m : Machine} (hm : P m) : P (x.after m) := by
  have hx := h ⟨rfl, hm⟩
  rw [Eval.after]
  generalize x m = o at hx ⊢
  cases hx with
  | ok h => exact h.2
  | error h => exact h.2
  | exhausted h => exact h.elim

/-- The machine is another one, but for its innermost frame. -/
structure Machine.Around (m n : Machine) : Prop where
  console : n.console = m.console
  outer : n.scope.outer = m.scope.outer

/-- What has changed in a fresh frame alone is gone with it. -/
theorem Machine.Around.enclosing {m n : Machine} (h : m.child.Around n) : n.enclosing = m := by
  obtain ⟨⟨f, outer⟩, console⟩ := n
  obtain ⟨rfl, rfl⟩ := h
  rfl

namespace Evaluator

variable {lower : Evaluator}

/-- An evaluation of what does not act leaves the machine as it was, but for what the expression itself
declares. -/
def Effectless (lower : Evaluator) : Prop := ∀ e : Expr, ¬ e.Acts → ∀ m, ∃ new : List Binding,
  (lower.evaluate e).after m = m.gaining new

/-- The forms that declare nothing change their own frame alone. -/
theorem Effectless.visit (hl : lower.Effectless) {e : Expr} (he : ¬ e.Acts)
    (hdeclares : e.declares? = none) (rounds : Nat) (m : Machine) :
    m.Around ((lower.visitNext rounds e).after m) := by
  have hassigns : e.assigns? = none := Classical.byContradiction fun h => he (.assigns h)
  refine Eval.Alike.after ?_ ⟨rfl, rfl⟩
  refine visitNext_alike (fun x _ n p h => by rw [h.1]) (Nat.le_refl _) (.inr rfl) hdeclares hassigns
    ?_ fun x hx => absurd (.calls (by simp [hx])) he
  rintro c hc n _ ⟨rfl, hn⟩
  obtain ⟨new, hafter⟩ := hl c (fun h => he (.part hc h)) n
  have hkept : m.Around ((lower.evaluate c).after n) := by
    rw [hafter]
    exact ⟨hn.console, hn.outer⟩
  rw [Eval.after] at hkept
  generalize lower.evaluate c n = o at hkept ⊢
  cases o with
  | ok => exact .ok ⟨rfl, hkept⟩
  | error => exact .error ⟨rfl, hkept⟩

/-- A declaration adds its own variable, and whatever its initialiser declares is thrown away. -/
theorem Effectless.visit_declares (hl : lower.Effectless) {e : Expr} (he : ¬ e.Acts) {x : String}
    (hdeclares : e.declares? = some x) (rounds : Nat) (m : Machine) :
    ∃ new : List Binding, ((lower.visitNext rounds e).after m.child).enclosing = m.gaining new := by
  cases hx : m.scope.frame.get? x with
  | some v =>
    have hheld : lower.visitNext rounds e m.child = .error (.ofFault (.redeclared x)) m.child :=
      visitNext_declares_held hdeclares (by rw [valueAt_home_child, hx]; rfl)
    exact ⟨[], by rw [Eval.after_error hheld, Machine.gaining_nil]; rfl⟩
  | none =>
    have hnew : valueAt m.child.scope.frames m.child.scope.home x = none := hx
    cases e with
    | declare y pos =>
      cases hdeclares
      exact ⟨[⟨x, .unit⟩], by rw [Eval.after_ok (visitNext_declare hnew)]; rfl⟩
    | declareAs y init pos =>
      cases hdeclares
      obtain ⟨new, hafter⟩ := hl init (fun h => he (.part List.mem_cons_self h))
        (m.child.declaring x)
      rw [Eval.after, visitNext_of_stores lower rounds (.declareAs hnew), storing_apply]
      cases hv : lower.evaluate init (m.child.declaring x) with
      | error f n =>
        rw [Eval.after_error hv] at hafter
        exact ⟨[⟨x, .unit⟩], by rw [hafter]; rfl⟩
      | ok v n =>
        rw [Eval.after_ok hv] at hafter
        refine ⟨[⟨x, v⟩], ?_⟩
        show (n.writing 1 x v).enclosing = { m with scope := ⟨m.scope.frame.bind x v, m.scope.outer⟩ }
        rw [← Frame.set_bind hx .unit v, hafter]
        rfl
    | _ => cases hdeclares

theorem Effectless.next (hl : lower.Effectless) (rounds : Nat) : (lower.next rounds).Effectless := by
  intro e he m
  rw [evaluate, Eval.after_blaming, Eval.after_inChild]
  cases hdeclares : e.declares? with
  | none =>
    have haround : m.child.Around ((lower.visitNext rounds e).after m.child) :=
      hl.visit he hdeclares rounds m.child
    exact ⟨[], by rw [Machine.gaining_nil]; exact haround.enclosing⟩
  | some x => exact hl.visit_declares he hdeclares rounds m

theorem ofDepth_effectless (rounds depth : Nat) : (ofDepth rounds depth).Effectless := by
  induction depth with
  | zero => exact fun e _ m => ⟨[], by rw [Machine.gaining_nil]; rfl⟩
  | succ depth ih => exact ih.next rounds

/-- What an evaluation adds is what the expression declares. -/
theorem exists_gaining (rounds depth : Nat) {e : Expr} (he : ¬ e.Acts) (m : Machine) :
    ∃ new : List Binding, new.map (·.name) = e.declared m.scope.frame ∧
      ((ofDepth rounds (depth + 1)).evaluate e).after m = m.gaining new := by
  obtain ⟨new, hafter⟩ := ofDepth_effectless rounds (depth + 1) e he m
  refine ⟨new, ?_, hafter⟩
  have hnames := evaluate_names rounds (ofDepth_scoped rounds depth) e m
  rw [show (ofDepth rounds depth).next rounds = ofDepth rounds (depth + 1) from rfl, hafter] at hnames
  obtain ⟨hframe, -⟩ := List.cons.inj hnames
  rw [Machine.gaining, Frame.extend, Frame.names, List.map_append] at hframe
  exact List.append_cancel_left hframe

end Evaluator

/-- A scope that has more variables in its innermost frame puts them there in the tree, and changes
nothing else. -/
theorem ScopeTree.Ordered.restore_extend {t : ScopeTree} (ht : t.Ordered) {i : Nat} {s : Scope}
    (hs : t.scope? i = some s) (new : List Binding) {j : Nat} {node : TreeFrame}
    (hj : t.frames[j]? = some node) : (t.restore i ⟨s.frame.extend new, s.outer⟩).frames[j]? =
      some (if j = i then node.put (node.frame.extend new) else node) := by
  have hmodify : (⟨s.frame.extend new, s.outer⟩ : Scope) = s.modify 0 (·.extend new) := rfl
  rw [hmodify, ht.restore_modify hs (path_head hs), List.getElem?_modify, hj]
  by_cases hji : j = i
  · simp [hji]
  · simp [hji, Ne.symm hji]

/-- **Expressions that assign nothing and call nothing by name have no effects**, at any limits but none
at all. Whatever such an expression comes to, a value or a failure, nothing is written or read, and every
frame of a tree has the variables that it had, with the same values; only a declaration adds its own
variable, to the frame that it is evaluated for and behind the others. -/
theorem Evaluator.evaluate_effectless (rounds depth : Nat) {e : Expr} (he : ¬ e.Acts) :
    (∀ m : Machine, ∃ new : List Binding, new.map (·.name) = e.declared m.scope.frame ∧
      ((ofDepth rounds (depth + 1)).evaluate e).after m = m.gaining new) ∧
    ∀ (t : ScopeTree) (i : Nat) (s : Scope) (c : Console), t.Ordered → t.scope? i = some s →
      let n := ((ofDepth rounds (depth + 1)).evaluate e).after ⟨s, c⟩
      n.console = c ∧ (t.restore i n.scope).frames.length = t.frames.length ∧
      ∃ new : List Binding, new.map (·.name) = e.declared s.frame ∧
        ∀ j node, t.frames[j]? = some node → (t.restore i n.scope).frames[j]? =
          some (if j = i then node.put (node.frame.extend new) else node) := by
  refine ⟨exists_gaining rounds depth he, ?_⟩
  intro t i s c ht hs n
  obtain ⟨new, hnames, hafter⟩ := exists_gaining rounds depth he ⟨s, c⟩
  have hn : n = Machine.gaining ⟨s, c⟩ new := hafter
  rw [hn]
  exact ⟨rfl, ScopeTree.putAll_length .., new, hnames, fun j node hj => ht.restore_extend hs new hj⟩

/-- A loop whose body declares a name fails when it comes to the body again, and leaves the frame around
it without that name. -/
theorem Evaluator.evaluate_effectless_loop :
    let t := (ScopeTree.root .library).child 0
    let s : Scope := ⟨.empty, [.library]⟩
    let pos := Position.start
    let e := Expr.forLoop (.unit pos) (.literal (.bool true) pos) (.unit pos)
      (.declareAs "y" (.literal (.int 1) pos) pos) pos
    t.Ordered ∧ t.scope? 1 = some s ∧ ¬ e.Acts ∧
      ∃ n, (ofDepth 2 3).evaluate e ⟨s, .reading []⟩ =
        .error (.error ⟨.redeclared "y", some pos⟩) n ∧ n.console = .reading [] ∧
        (t.restore 1 n.scope).frames[1]? = some ⟨.empty, some 0⟩ := by
  intro t s pos e
  have ht : t.Ordered := (ScopeTree.Ordered.root .library).child Nat.one_pos
  have hunit : ¬ (Expr.unit pos).Acts := Expr.not_acts rfl rfl nofun
  have hliteral (l : Literal) : ¬ (Expr.literal l pos).Acts := Expr.not_acts rfl rfl nofun
  have hbody : ¬ (Expr.declareAs "y" (.literal (.int 1) pos) pos).Acts :=
    Expr.not_acts rfl rfl (by simpa [Expr.children] using hliteral _)
  have he : ¬ e.Acts :=
    Expr.not_acts rfl rfl (by simpa [e, Expr.children] using ⟨hunit, hliteral _, hunit, hbody⟩)
  obtain ⟨-, htree⟩ := evaluate_effectless 2 2 he
  obtain ⟨hconsole, -, new, hnew, hframes⟩ := htree t 1 s (.reading []) ht rfl
  obtain rfl : new = [] := List.map_eq_nil_iff.1 hnew
  exact ⟨ht, rfl, he, _, rfl, hconsole, hframes 1 ⟨.empty, some 0⟩ rfl⟩

end SmallLisp
