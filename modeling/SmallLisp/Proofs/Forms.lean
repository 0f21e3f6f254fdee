import SmallLisp.Evaluation
import SmallLisp.Proofs.Frames

/-!
# What computations do, form by form

For each operation on the machine and each form that binds or assigns names: what it comes to and the
machine that it leaves. A declaration makes its variable before it evaluates anything, and an
assignment finds its variable before; both write at last (`Evaluator.storing`).
-/

set_option autoImplicit false

namespace SmallLisp

open Scope

/-- The machine that a computation leaves, whether it fails or not. -/
def Eval.after {α : Type} (x : Eval α) (m : Machine) : Machine :=
  match x m with
  | .ok _ n => n
  | .error _ n => n

namespace Machine

/-- The machine in a fresh frame. -/
def child (m : Machine) : Machine := { m with scope := m.scope.child }

/-- The machine back in the frame around. -/
def enclosing (m : Machine) : Machine := { m with scope := m.scope.enclosing }

/-- The machine once a declaration has made its variable. -/
def declaring (m : Machine) (x : String) : Machine :=
  { m with scope := m.scope.modify m.scope.home (·.bind x .unit) }

/-- The machine with another value for a variable of the frame so far out. -/
def writing (m : Machine) (hops : Nat) (x : String) (v : Value) : Machine :=
  { m with scope := m.scope.write hops x v }

@[simp] theorem frames_child (m : Machine) : m.child.scope.frames = .empty :: m.scope.frames := rfl

@[simp] theorem frames_declaring (m : Machine) (x : String) :
    (m.declaring x).scope.frames = m.scope.frames.modify m.scope.home (·.bind x .unit) :=
  frames_modify ..

@[simp] theorem frames_writing (m : Machine) (hops : Nat) (x : String) (v : Value) :
    (m.writing hops x v).scope.frames = m.scope.frames.modify hops (·.set x v) :=
  frames_write ..

/-- A write puts a value in the place of the one that the variable has. -/
theorem valueAt_writing {m : Machine} {hops : Nat} {x : String}
    (hx : (valueAt m.scope.frames hops x).isSome) (v : Value) :
    valueAt (m.writing hops x v).scope.frames hops x = some v := by
  obtain ⟨w, hw⟩ := Option.isSome_iff_exists.1 hx
  rw [frames_writing, valueAt_set, if_pos ⟨rfl, rfl⟩, hw, Option.map_some]

end Machine

/-- Declares variables in the innermost frame. -/
def Eval.declareAll (vs : List (String × Value)) : Eval Unit :=
  vs.forM fun (x, v) => Eval.declare 0 x v

/-- The name that a form declares. -/
def Expr.declares? : Expr → Option String
  | declare x _ | declareAs x _ _ => some x
  | _ => none

/-- The name that a form assigns. -/
def Expr.assigns? : Expr → Option String
  | assign x _ _ => some x
  | _ => none

/-- The name that a form calls. -/
def Expr.calls? : Expr → Option String
  | call (.named x) _ _ => some x
  | _ => none

/-- The name that a form looks up itself. -/
def Expr.reads? : Expr → Option String
  | name x _ | call (.named x) _ _ => some x
  | _ => none

/-- The names that a node itself has. -/
def Expr.ownNames : Expr → List String
  | name x _ | call (.named x) _ _ | declare x _ | declareAs x _ _ | assign x _ _ => [x]
  | function params _ _ => params
  | _ => []

/-! ## Running computations -/

namespace Eval

variable {α β : Type}

theorem after_ok {x : Eval α} {m n : Machine} {a : α} (h : x m = .ok a n) : x.after m = n := by
  rw [after, h]

theorem after_error {x : Eval α} {m n : Machine} {f : Failure} (h : x m = .error f n) :
    x.after m = n := by
  rw [after, h]

theorem bind_ok {x : Eval α} {m n : Machine} {a : α} (h : x m = .ok a n) (f : α → Eval β) :
    (x >>= f) m = f a n := by
  show EStateM.bind x f m = _
  rw [EStateM.bind, h]

theorem bind_error {x : Eval α} {m n : Machine} {e : Failure} (h : x m = .error e n)
    (f : α → Eval β) : (x >>= f) m = .error e n := by
  show EStateM.bind x f m = _
  rw [EStateM.bind, h]

theorem exists_of_bind_ok {x : Eval α} {f : α → Eval β} {m n : Machine} {b : β}
    (h : (x >>= f) m = .ok b n) : ∃ a p, x m = .ok a p ∧ f a p = .ok b n := by
  cases hx : x m with
  | ok a p => exact ⟨a, p, rfl, by rwa [bind_ok hx] at h⟩
  | error e p =>
    rw [bind_error hx] at h
    cases h

/-- What comes to values in turn does so from the first on. -/
theorem exists_of_mapM_cons_ok {f : α → Eval β} {a : α} {as : List α} {bs : List β}
    {m n : Machine} (h : (a :: as).mapM f m = .ok bs n) :
    ∃ b cs p, bs = b :: cs ∧ f a m = .ok b p ∧ as.mapM f p = .ok cs n := by
  rw [List.mapM_cons] at h
  obtain ⟨b, p, hb, h⟩ := exists_of_bind_ok h
  obtain ⟨cs, q, hcs, h⟩ := exists_of_bind_ok h
  cases h
  exact ⟨b, cs, p, rfl, hb, hcs⟩

theorem length_of_mapM {f : α → Eval β} {as : List α} {bs : List β} {m n : Machine}
    (h : as.mapM f m = .ok bs n) : as.length = bs.length := by
  induction as generalizing bs m n with
  | nil =>
    cases h
    rfl
  | cons a as ih =>
    obtain ⟨b, cs, p, rfl, -, hcs⟩ := exists_of_mapM_cons_ok h
    rw [List.length_cons, List.length_cons, ih hcs]

/-- What comes to values behind others does so from where those before have come to theirs. -/
theorem exists_of_mapM_append_ok {f : α → Eval β} {as : List α} {bs cs : List β} {m n : Machine}
    (h : as.mapM f m = .ok (bs ++ cs) n) :
    ∃ as₁ as₂ p, as = as₁ ++ as₂ ∧ as₁.mapM f m = .ok bs p ∧ as₂.mapM f p = .ok cs n := by
  induction bs generalizing as m with
  | nil => exact ⟨[], as, m, rfl, rfl, h⟩
  | cons b bs ih =>
    cases as with
    | nil => cases h
    | cons a as =>
      obtain ⟨c, ds, p, hds, ha, has⟩ := exists_of_mapM_cons_ok h
      cases hds
      obtain ⟨as₁, as₂, q, rfl, h₁, h₂⟩ := ih has
      refine ⟨a :: as₁, as₂, q, rfl, ?_, h₂⟩
      rw [List.mapM_cons, bind_ok ha, bind_ok h₁]
      rfl

theorem after_bind (x : Eval α) (f : α → Eval β) (m : Machine) :
    (x >>= f).after m = match x m with
      | .ok a n => (f a).after n
      | .error _ n => n := by
  show (match EStateM.bind x f m with | .ok _ n => n | .error _ n => n) = _
  rw [EStateM.bind]
  cases x m <;> rfl

@[simp] theorem after_blaming (place : Position) (x : Eval α) (m : Machine) :
    (blaming place x).after m = x.after m := by
  rw [after, blaming, after]
  cases x m <;> rfl

theorem inChild_apply (x : Eval α) (m : Machine) :
    inChild x m = match x m.child with
      | .ok a n => .ok a n.enclosing
      | .error f n => .error f n.enclosing := rfl

theorem after_inChild (x : Eval α) (m : Machine) :
    (inChild x).after m = (x.after m.child).enclosing := by
  rw [after, inChild_apply, after]
  cases x m.child <;> rfl

/-! ## Declarations in a frame -/

theorem declare_new {hops : Nat} {x : String} {m : Machine}
    (h : valueAt m.scope.frames hops x = none) (v : Value) :
    declare hops x v m = .ok () { m with scope := m.scope.modify hops (·.bind x v) } := by
  rw [declare, declare_eq, h]
  rfl

theorem declare_held {hops : Nat} {x : String} {m : Machine}
    (h : (valueAt m.scope.frames hops x).isSome) (v : Value) :
    declare hops x v m = .error (.ofFault (.redeclared x)) m := by
  rw [declare, declare_eq, if_pos h]

theorem declareAll_cons (x : String) (v : Value) (vs : List (String × Value)) :
    declareAll ((x, v) :: vs) = declare 0 x v >>= fun _ => declareAll vs := rfl

end Eval

/-! ## Calls -/

namespace Evaluator

/-- An operator refuses a number of operands that it does not accept before it evaluates any. -/
theorem operate_refused (lower : Evaluator) {op : Operator} {operands : List Expr}
    (h : op.arity.accepts operands.length = false) :
    lower.operate op operands = throw (.ofFault (.wrongOperands op operands.length)) := by
  unfold operate
  split
  case h_10 => rfl
  all_goals exact absurd h (by simp [Operator.arity])

/-- Evaluates the body of a function in a fresh frame with values for the parameters. -/
def enter (lower : Evaluator) (params : List String) (body : Expr) (args : List Value) :
    Eval Value :=
  Eval.inChild (Eval.declareAll (params.zip args) >>= fun _ => lower.visit body)

/-- What a call does once the number of arguments is right. -/
def invoke (lower : Evaluator) (args : List Value) : Callable → Eval Value
  | .native f => f.perform lower.call args
  | .function params body => lower.enter params body args

theorem callNext_eq (lower : Evaluator) (callee : Callable) (args : List Value) :
    lower.callNext callee args =
      checkCount callee.label callee.arity args.length >>= fun _ => lower.invoke args callee := by
  cases callee <;> rfl

/-- Calls what a name stands for. -/
def invokeNamed (lower : Evaluator) (name : String) (args : List Expr) : Option Value → Eval Value
  | none => throw (.ofFault (.noFunction name))
  | some v =>
    match v.callable? with
    | none => throw (.ofFault (.notCallable name))
    | some callee => do
      checkCount name callee.arity args.length
      lower.callNext callee (← args.mapM lower.evaluate)

theorem callNamed_apply (lower : Evaluator) (name : String) (args : List Expr) (m : Machine) :
    lower.callNamed name args m = lower.invokeNamed name args (m.scope.value? name) m := by
  have hscope : Eval.scope m = .ok m.scope m := rfl
  rw [callNamed, Eval.bind_ok hscope, Scope.value?]
  cases m.scope.find? name <;> rfl

end Evaluator

/-! ## Declarations and assignments -/

/-- On a machine a form comes to storing what an expression comes to on a machine, in a variable of the
frame so far out. A declaration has made its variable by then, and an assignment has found its own. -/
inductive Machine.Stores (m : Machine) : Expr → Expr → Machine → Nat → String → Prop
  | assign {x : String} {value : Expr} {pos : Position} {hops : Nat}
      (hx : m.scope.assignable m.scope.home x = .ok hops) :
      Stores m (.assign x value pos) value m hops x
  | declareAs {x : String} {init : Expr} {pos : Position}
      (hx : valueAt m.scope.frames m.scope.home x = none) :
      Stores m (.declareAs x init pos) init (m.declaring x) m.scope.home x

namespace Evaluator

variable {lower : Evaluator}

/-- Writes what an expression comes to, once it has come to it. -/
def storing (lower : Evaluator) (hops : Nat) (x : String) (e : Expr) : Eval Value := do
  Eval.write hops x (← lower.evaluate e)
  return .unit

theorem storing_apply (hops : Nat) (x : String) (e : Expr) (m : Machine) :
    lower.storing hops x e m =
      match lower.evaluate e m with
      | .ok v n => .ok .unit (n.writing hops x v)
      | .error f n => .error f n := by
  rw [storing]
  cases he : lower.evaluate e m with
  | ok v n => exact (Eval.bind_ok he _).trans rfl
  | error f n => exact Eval.bind_error he _

theorem visitNext_declare {rounds : Nat} {x : String} {pos : Position} {m : Machine}
    (hx : valueAt m.scope.frames m.scope.home x = none) :
    lower.visitNext rounds (.declare x pos) m = .ok .unit (m.declaring x) :=
  Eval.bind_ok (Eval.declare_new hx _) _

/-- A declaration of a name that the frame holds is refused. -/
theorem visitNext_declares_held {rounds : Nat} {e : Expr} {x : String} {m : Machine}
    (he : e.declares? = some x) (hx : (valueAt m.scope.frames m.scope.home x).isSome) :
    lower.visitNext rounds e m = .error (.ofFault (.redeclared x)) m := by
  cases e with
  | declare y pos =>
    cases he
    exact Eval.bind_error (Eval.declare_held hx _) _
  | declareAs y init pos =>
    cases he
    exact Eval.bind_error (Eval.declare_held hx _) _
  | _ => cases he

/-- An assignment without a mutable variable to assign is refused. -/
theorem visitNext_assign_refused (lower : Evaluator) (rounds : Nat) {x : String} (value : Expr)
    (pos : Position) {m : Machine} {f : Fault}
    (hx : m.scope.assignable m.scope.home x = .error f) :
    lower.visitNext rounds (.assign x value pos) m = .error (.ofFault f) m :=
  Eval.bind_error (x := Eval.ofFault _) (by rw [hx]; rfl) _

theorem visitNext_of_stores (lower : Evaluator) (rounds : Nat) {e c : Expr} {m s : Machine}
    {hops : Nat} {x : String} (h : m.Stores e c s hops x) :
    lower.visitNext rounds e m = lower.storing hops x c s := by
  cases h with
  | assign hx => exact Eval.bind_ok (x := Eval.ofFault _) (n := m) (by rw [hx]; rfl) _
  | declareAs hx => exact Eval.bind_ok (Eval.declare_new hx _) _

/-- What can become of a form that binds or assigns a name, whatever its parts come to. -/
theorem visitNext_cases {e : Expr} (he : e.declares? ≠ none ∨ e.assigns? ≠ none) (m : Machine) :
    (∃ f, ∀ (lower : Evaluator) rounds, lower.visitNext rounds e m = .error (.ofFault f) m) ∨
    (∃ x, e.declares? = some x ∧
      ∀ (lower : Evaluator) rounds, lower.visitNext rounds e m = .ok .unit (m.declaring x)) ∨
    ∃ c s hops x, m.Stores e c s hops x := by
  cases hd : e.declares? with
  | some x =>
    cases hx : valueAt m.scope.frames m.scope.home x with
    | some v => exact .inl ⟨_, fun _ _ => visitNext_declares_held hd (by rw [hx]; rfl)⟩
    | none =>
      cases e with
      | declare y pos =>
        cases hd
        exact .inr (.inl ⟨_, rfl, fun _ _ => visitNext_declare hx⟩)
      | declareAs y init pos =>
        cases hd
        exact .inr (.inr ⟨_, _, _, _, .declareAs hx⟩)
      | _ => cases hd
  | none =>
    cases e with
    | assign x value pos =>
      cases hx : m.scope.assignable m.scope.home x with
      | error f => exact .inl ⟨f, fun lower rounds => visitNext_assign_refused lower rounds _ _ hx⟩
      | ok hops => exact .inr (.inr ⟨_, _, _, _, .assign hx⟩)
    | _ => simp_all [Expr.declares?, Expr.assigns?]

/-- A form writes a value in a variable, the machine being left so by the expression for it. -/
def Writes (lower : Evaluator) (m : Machine) (e : Expr) (hops : Nat) (x : String) (v : Value)
    (n : Machine) : Prop :=
  ∃ c s, m.Stores e c s hops x ∧ lower.evaluate c s = .ok v n

theorem visitNext_of_writes (rounds : Nat) {e : Expr} {m n : Machine} {hops : Nat} {x : String}
    {v : Value} (h : lower.Writes m e hops x v n) :
    lower.visitNext rounds e m = .ok .unit (n.writing hops x v) := by
  obtain ⟨c, s, hstores, hv⟩ := h
  rw [visitNext_of_stores lower rounds hstores, storing_apply, hv]

end Evaluator

end SmallLisp
