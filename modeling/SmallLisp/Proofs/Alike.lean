import SmallLisp.Proofs.Forms

/-!
# Computations that run alike

Two computations run alike when they take related machines to the same value, or to the same
failure, on related machines. Whatever a program is made of keeps this (`Evaluator.visitNext_alike`,
`Evaluator.callNext_alike`), so it is enough to show it of the level below. The forms that bind and
assign names touch frames themselves: they run alike on machines that they do the same to
(`SameDeclaration`, `SameAssignment`), which each relation has to say for itself.

A relation of a machine to itself that says where the machine has come from makes this a statement
about one evaluation. Where likeness is lax, the first computation may also give up for want of
nesting or rounds.
-/

set_option autoImplicit false

namespace SmallLisp

open Scope

/-- The same value or the same failure on related machines. -/
inductive Outcome.Alike (lax : Prop) (R : Machine → Machine → Prop) {α : Type} :
    Outcome α → Outcome α → Prop
  | ok {a : α} {m n : Machine} (h : R m n) : Alike lax R (.ok a m) (.ok a n)
  | error {f : Failure} {m n : Machine} (h : R m n) : Alike lax R (.error f m) (.error f n)
  | exhausted {m : Machine} {o : Outcome α} (h : lax) : Alike lax R (.error .exhausted m) o

/-- Computations that take related machines to alike outcomes. -/
def Eval.Alike (lax : Prop) (R : Machine → Machine → Prop) {α : Type} (x y : Eval α) : Prop :=
  ∀ ⦃m n : Machine⦄, R m n → Outcome.Alike lax R (x m) (y n)

/-- Machines that look the same to a program: names stand for the same values, and the consoles are
the same, however they change. -/
structure Transparent (R : Machine → Machine → Prop) : Prop where
  value : ∀ ⦃m n : Machine⦄, R m n → ∀ x, m.scope.value? x = n.scope.value? x
  console : ∀ ⦃m n : Machine⦄, R m n → m.console = n.console
  talk : ∀ ⦃m n : Machine⦄, R m n → ∀ c, R { m with console := c } { n with console := c }

/-- Machines on which a name stands for the same value. -/
def SameValue (R : Machine → Machine → Prop) (x : String) : Prop :=
  ∀ ⦃m n : Machine⦄, R m n → m.scope.value? x = n.scope.value? x

/-- Machines with the same console, however it changes. -/
structure SameConsole (R : Machine → Machine → Prop) : Prop where
  console : ∀ ⦃m n : Machine⦄, R m n → m.console = n.console
  talk : ∀ ⦃m n : Machine⦄, R m n → ∀ c, R { m with console := c } { n with console := c }

/-- Machines of which a write of a name makes such again, a frame of the one being at some place of
the other. -/
structure SameWrites (R : Machine → Machine → Prop) (place : Nat → Nat) (x : String) : Prop where
  writing : ∀ ⦃m n : Machine⦄, R m n → ∀ hops v, R (m.writing hops x v) (n.writing (place hops) x v)

/-- Machines that an assignment of a name does the same to. -/
structure SameAssignment (R : Machine → Machine → Prop) (place : Nat → Nat) (x : String) :
    Prop extends SameWrites R place x where
  assignable : ∀ ⦃m n : Machine⦄, R m n → n.scope.assignable n.scope.home x =
    (m.scope.assignable m.scope.home x).map place

/-- Machines that a declaration of a name does the same to. -/
structure SameDeclaration (R : Machine → Machine → Prop) (place : Nat → Nat) (x : String) :
    Prop extends SameWrites R place x where
  home : ∀ ⦃m n : Machine⦄, R m n → n.scope.home = place m.scope.home
  held : ∀ ⦃m n : Machine⦄, R m n →
    valueAt n.scope.frames n.scope.home x = valueAt m.scope.frames m.scope.home x
  declaring : ∀ ⦃m n : Machine⦄, R m n → R (m.declaring x) (n.declaring x)

variable {lax : Prop} {R R' : Machine → Machine → Prop} {α β : Type}

theorem Transparent.sameValue (hR : Transparent R) (x : String) : SameValue R x :=
  fun _ _ h => hR.value h x

theorem Transparent.sameConsole (hR : Transparent R) : SameConsole R := ⟨hR.console, hR.talk⟩

/-- Alike outcomes that are gone on from alike. -/
theorem Outcome.Alike.bind {x y : Eval α} {f g : α → Eval β} {m n : Machine}
    (h : Outcome.Alike lax R (x m) (y n))
    (hf : ∀ a m' n', x m = .ok a m' → R m' n' → Outcome.Alike lax R (f a m') (g a n')) :
    Outcome.Alike lax R ((x >>= f) m) ((y >>= g) n) := by
  show Outcome.Alike lax R (EStateM.bind x f m) (EStateM.bind y g n)
  rw [EStateM.bind, EStateM.bind]
  generalize x m = o at h hf ⊢
  generalize y n = p at h ⊢
  cases h with
  | ok h' => exact hf _ _ _ rfl h'
  | error h' => exact .error h'
  | exhausted h' => exact .exhausted h'

namespace Eval.Alike

protected theorem pure (a : α) : Alike lax R (pure a) (pure a) := fun _ _ h => .ok h

protected theorem throw (f : Failure) : Alike lax R (throw f : Eval α) (throw f) :=
  fun _ _ h => .error h

protected theorem ofFault (r : Except Fault α) : Alike lax R (ofFault r) (ofFault r) := by
  cases r with
  | ok a => exact .pure a
  | error f => exact .throw _

protected theorem ofExcept (r : Except Failure α) : Alike lax R (ofExcept r) (ofExcept r) := by
  cases r with
  | ok a => exact .pure a
  | error f => exact .throw f

protected theorem bind {x y : Eval α} {f g : α → Eval β} (h : Alike lax R x y)
    (hf : ∀ a, Alike lax R (f a) (g a)) : Alike lax R (x >>= f) (y >>= g) :=
  fun _ _ hmn => (h hmn).bind fun a _ _ _ h' => hf a h'

protected theorem discard {x y : Eval α} (h : Alike lax R x y) :
    Alike lax R (discard x) (discard y) := by
  have (z : Eval α) : (discard z : Eval Unit) = z >>= fun _ => pure () := rfl
  rw [this, this]
  exact h.bind fun _ => .pure ()

protected theorem foldlM {f g : β → α → Eval β} {as : List α}
    (h : ∀ b, ∀ a ∈ as, Alike lax R (f b a) (g b a)) (b : β) :
    Alike lax R (as.foldlM f b) (as.foldlM g b) := by
  induction as generalizing b with
  | nil => exact .pure b
  | cons a as ih =>
    rw [List.foldlM_cons, List.foldlM_cons]
    exact (h b a List.mem_cons_self).bind fun b' =>
      ih (fun b a ha => h b a (List.mem_cons_of_mem _ ha)) b'

protected theorem mapM {f g : α → Eval β} {as : List α}
    (h : ∀ a ∈ as, Alike lax R (f a) (g a)) : Alike lax R (as.mapM f) (as.mapM g) := by
  induction as with
  | nil => exact .pure []
  | cons a as ih =>
    rw [List.mapM_cons, List.mapM_cons]
    refine (h a List.mem_cons_self).bind fun b => ?_
    exact (ih fun a ha => h a (List.mem_cons_of_mem _ ha)).bind fun bs => .pure _

/-- A loop that may go round more often runs alike where likeness is lax. -/
protected theorem repeatWhile {cond cond' : Eval Bool} {body body' : Eval Unit}
    (hc : Alike lax R cond cond') (hb : Alike lax R body body') {k l : Nat} (hkl : k ≤ l)
    (hlax : lax ∨ k = l) : Alike lax R (repeatWhile cond body k) (repeatWhile cond' body' l) := by
  induction k generalizing l with
  | zero =>
    rcases hlax with h | rfl
    · exact fun _ _ _ => .exhausted h
    · exact .throw _
  | succ k ih =>
    obtain ⟨l, rfl⟩ : ∃ l', l = l' + 1 := ⟨l - 1, by omega⟩
    rw [repeatWhile, repeatWhile]
    refine hc.bind fun goOn => ?_
    cases goOn with
    | false => exact .pure ()
    | true => exact hb.bind fun _ => ih (by omega) (hlax.imp_right (by omega))

protected theorem blaming {x y : Eval α} (h : Alike lax R x y) (place : Position) :
    Alike lax R (blaming place x) (blaming place y) := by
  intro m n hmn
  have hxy := h hmn
  rw [Eval.blaming, Eval.blaming]
  generalize x m = o at hxy ⊢
  generalize y n = p at hxy ⊢
  cases hxy with
  | ok h' => exact .ok h'
  | error h' => exact .error h'
  | exhausted h' => exact .exhausted h'

/-- A fresh frame on both sides; the relation within need not be the one around. -/
protected theorem inChild {x y : Eval α} (h : Alike lax R' x y)
    (enter : ∀ ⦃m n⦄, R m n → R' m.child n.child)
    (leave : ∀ ⦃m n⦄, R' m n → R m.enclosing n.enclosing) :
    Alike lax R (inChild x) (inChild y) := by
  intro m n hmn
  have hxy := h (enter hmn)
  rw [inChild_apply, inChild_apply]
  generalize x m.child = o at hxy ⊢
  generalize y n.child = p at hxy ⊢
  cases hxy with
  | ok h' => exact .ok (leave h')
  | error h' => exact .error (leave h')
  | exhausted h' => exact .exhausted h'

section
variable (hR : SameConsole R)
include hR

protected theorem echo (t : Text) : Alike lax R (echo t) (echo t) := by
  intro m n hmn
  rw [Eval.echo, Eval.echo, hR.console hmn]
  exact .ok (hR.talk hmn _)

protected theorem readLine : Alike lax R readLine readLine := by
  intro m n hmn
  rw [Eval.readLine, Eval.readLine, hR.console hmn]
  split
  · exact .ok (hR.talk hmn _)
  · exact .error hmn

end

/-- Declarations in the innermost frame run alike if that frame is the same on both sides, and stays
so. -/
protected theorem declareAll (vs : List (String × Value))
    (hheld : ∀ ⦃m n : Machine⦄, R m n → ∀ x,
      valueAt n.scope.frames 0 x = valueAt m.scope.frames 0 x)
    (hbind : ∀ ⦃m n : Machine⦄, R m n → ∀ x v,
      R { m with scope := m.scope.modify 0 (·.bind x v) }
        { n with scope := n.scope.modify 0 (·.bind x v) }) :
    Alike lax R (declareAll vs) (declareAll vs) := by
  induction vs with
  | nil => exact .pure ()
  | cons p vs ih =>
    rw [declareAll_cons]
    refine Alike.bind (fun m n h => ?_) fun _ => ih
    have hx := hheld h p.1
    cases hm : valueAt m.scope.frames 0 p.1 with
    | some v =>
      rw [declare_held (by rw [hm]; rfl), declare_held (by rw [hx, hm]; rfl)]
      exact .error h
    | none =>
      rw [declare_new hm, declare_new (hx.trans hm)]
      exact .ok (hbind h p.1 p.2)

end Eval.Alike

/-! ## One level of nesting -/

namespace Evaluator

open Eval

theorem checkCount_alike (name : String) (arity : Arity) (count : Nat) :
    Eval.Alike lax R (checkCount name arity count) (checkCount name arity count) := by
  rw [checkCount]
  split
  · exact .pure ()
  · exact .throw _

section
variable {a b : Evaluator}

section
variable (hR : SameConsole R)
  (hcall : ∀ callee args, Eval.Alike lax R (a.call callee args) (b.call callee args))
include hR hcall

theorem perform_alike (f : Native) (args : List Value) :
    Eval.Alike lax R (f.perform a.call args) (f.perform b.call args) := by
  unfold Native.perform
  split
  · exact (Eval.Alike.echo hR _).bind fun _ => .pure _
  · exact (Eval.Alike.echo hR _).bind fun _ => .pure _
  · exact (Eval.Alike.readLine hR).bind fun _ => .pure _
  · split
    · exact .pure _
    · exact .throw _
  · exact (Eval.Alike.ofFault _).bind fun _ => .pure _
  · split
    · exact .pure _
    · exact .pure _
    · exact .throw _
  · refine (Eval.Alike.ofFault _).bind fun items => (Eval.Alike.ofFault _).bind fun callee => ?_
    exact (Eval.Alike.mapM fun item _ => hcall callee [item]).bind fun _ => .pure _
  all_goals first | exact .ofFault _ | exact .throw _

theorem callNext_alike (callee : Callable) (args : List Value)
    (henter : ∀ params body, callee = .function params body →
      Eval.Alike lax R (a.enter params body args) (b.enter params body args)) :
    Eval.Alike lax R (a.callNext callee args) (b.callNext callee args) := by
  rw [callNext_eq, callNext_eq]
  refine (checkCount_alike ..).bind fun _ => ?_
  cases callee with
  | native f => exact perform_alike hR hcall f args
  | function params body => exact henter params body rfl

end

section
variable {es : List Expr} (heval : ∀ e ∈ es, Eval.Alike lax R (a.evaluate e) (b.evaluate e))
include heval

theorem test_alike {e : Expr} (he : e ∈ es) : Eval.Alike lax R (a.test e) (b.test e) :=
  (heval e he).bind fun _ => .ofFault _

theorem combine_alike (op : Value → Value → Except Fault Value) (first : Value) :
    Eval.Alike lax R (a.combine op first es) (b.combine op first es) :=
  .foldlM (fun _ e he => (heval e he).bind fun _ => .ofFault _) first

theorem operate_alike (op : Operator) :
    Eval.Alike lax R (a.operate op es) (b.operate op es) := by
  unfold Evaluator.operate
  split
  · exact combine_alike heval _ _
  · exact (heval _ (by simp)).bind fun _ => combine_alike (fun e he => heval e (by simp [he])) _ _
  · exact combine_alike heval _ _
  · exact (heval _ (by simp)).bind fun _ => combine_alike (fun e he => heval e (by simp [he])) _ _
  · exact (heval _ (by simp)).bind fun _ => (heval _ (by simp)).bind fun _ => .ofExcept _
  · exact (heval _ (by simp)).bind fun _ => .ofFault _
  · exact (heval _ (by simp)).bind fun _ => (heval _ (by simp)).bind fun _ => .ofFault _
  · exact (Eval.Alike.mapM heval).bind fun _ => .pure _
  · exact .foldlM (fun _ e he => heval e he) _
  · exact .throw _

end

theorem lookup_alike {x : String} (hx : SameValue R x) :
    Eval.Alike lax R (do ofFault ((← Eval.scope).lookup x))
      (do ofFault ((← Eval.scope).lookup x)) := by
  intro m n hmn
  show Outcome.Alike lax R (ofFault (m.scope.lookup x) m) (ofFault (n.scope.lookup x) n)
  rw [Scope.lookup_eq, Scope.lookup_eq, hx hmn]
  exact Eval.Alike.ofFault _ hmn

theorem callNamed_alike {args : List Expr} {name : String} (hname : SameValue R name)
    (heval : ∀ e ∈ args, Eval.Alike lax R (a.evaluate e) (b.evaluate e))
    (hcall : ∀ callee vs, Eval.Alike lax R (a.callNext callee vs) (b.callNext callee vs)) :
    Eval.Alike lax R (a.callNamed name args) (b.callNamed name args) := by
  intro m n hmn
  rw [callNamed_apply, callNamed_apply, hname hmn]
  refine (?_ : Eval.Alike lax R _ _) hmn
  cases n.scope.value? name with
  | none => exact .throw _
  | some v =>
    rw [invokeNamed, invokeNamed]
    cases v.callable? with
    | none => exact .throw _
    | some callee =>
      exact (checkCount_alike ..).bind fun _ => (Eval.Alike.mapM heval).bind (hcall callee)

/-- Evaluation of a form that neither binds nor assigns runs alike if that of its parts does. -/
theorem visitNext_alike {rounds rounds' : Nat} {e : Expr}
    (hreads : ∀ x, e.reads? = some x → SameValue R x)
    (hrounds : rounds ≤ rounds') (hlax : lax ∨ rounds = rounds')
    (hdeclares : e.declares? = none) (hassigns : e.assigns? = none)
    (heval : ∀ c ∈ e.children, Eval.Alike lax R (a.evaluate c) (b.evaluate c))
    (hcall : ∀ x, e.calls? = some x → ∀ callee args,
      Eval.Alike lax R (a.callNext callee args) (b.callNext callee args)) :
    Eval.Alike lax R (a.visitNext rounds e) (b.visitNext rounds' e) := by
  cases e with
  | literal l pos => exact .pure _
  | name x pos => exact lookup_alike (hreads x rfl)
  | unit pos => exact .pure _
  | call callee args pos =>
    cases callee with
    | operator op => exact operate_alike heval op
    | named name => exact callNamed_alike (hreads name rfl) heval (hcall name rfl)
  | function params body pos => exact .pure _
  | ifThen cond yes pos =>
    refine (test_alike heval (by simp [Expr.children])).bind fun holds => ?_
    cases holds with
    | true => exact heval _ (by simp [Expr.children])
    | false => exact .pure _
  | ifThenElse cond yes no pos =>
    refine (test_alike heval (by simp [Expr.children])).bind fun holds => ?_
    cases holds with
    | true => exact heval _ (by simp [Expr.children])
    | false => exact heval _ (by simp [Expr.children])
  | whileLoop cond body pos =>
    refine (Eval.Alike.repeatWhile (test_alike heval (by simp [Expr.children])) ?_ hrounds hlax).bind
      fun _ => .pure _
    exact (heval _ (by simp [Expr.children])).discard
  | forLoop init cond post body pos =>
    refine (heval _ (by simp [Expr.children])).discard.bind fun _ => ?_
    refine (Eval.Alike.repeatWhile ?_ ?_ hrounds hlax).bind fun _ => .pure _
    · split
      · exact .pure _
      · exact test_alike heval (by simp [Expr.children])
    · exact (heval _ (by simp [Expr.children])).discard.bind fun _ =>
        (heval _ (by simp [Expr.children])).discard
  | declare x pos => cases hdeclares
  | declareAs x init pos => cases hdeclares
  | assign x value pos => cases hassigns

theorem storing_alike {x : String} {c : Expr} {hops hops' : Nat}
    (heval : Eval.Alike lax R (a.evaluate c) (b.evaluate c))
    (hwriting : ∀ ⦃m n : Machine⦄, R m n → ∀ v, R (m.writing hops x v) (n.writing hops' x v)) :
    Eval.Alike lax R (a.storing hops x c) (b.storing hops' x c) := by
  refine heval.bind fun v => Eval.Alike.bind (fun m n h => ?_) fun _ => .pure _
  exact .ok (hwriting h v)

section
variable {place : Nat → Nat} {rounds rounds' : Nat} {e : Expr} {x : String}
  (heval : ∀ c ∈ e.children, Eval.Alike lax R (a.evaluate c) (b.evaluate c))
include heval

/-- A declaration runs alike if it does the same to the machines and its initialiser runs alike. -/
theorem visitNext_declares_alike (he : e.declares? = some x) (hx : SameDeclaration R place x) :
    Eval.Alike lax R (a.visitNext rounds e) (b.visitNext rounds' e) := by
  intro m n h
  have hheld := hx.held h
  cases hm : valueAt m.scope.frames m.scope.home x with
  | some v =>
    rw [visitNext_declares_held he (by rw [hm]; rfl),
      visitNext_declares_held he (by rw [hheld, hm]; rfl)]
    exact .error h
  | none =>
    cases e with
    | declare y pos =>
      cases he
      rw [visitNext_declare hm, visitNext_declare (hheld.trans hm)]
      exact .ok (hx.declaring h)
    | declareAs y init pos =>
      cases he
      rw [visitNext_of_stores a rounds (.declareAs hm),
        visitNext_of_stores b rounds' (.declareAs (hheld.trans hm)), hx.home h]
      exact storing_alike (heval init List.mem_cons_self) (fun _ _ h => hx.writing h _)
        (hx.declaring h)
    | _ => cases he

/-- An assignment runs alike if it does the same to the machines and the expression for the value
runs alike. -/
theorem visitNext_assigns_alike (he : e.assigns? = some x) (hx : SameAssignment R place x) :
    Eval.Alike lax R (a.visitNext rounds e) (b.visitNext rounds' e) := by
  intro m n h
  cases e with
  | assign y value pos =>
    cases he
    have htarget := hx.assignable h
    cases hm : m.scope.assignable m.scope.home x with
    | error f =>
      rw [hm] at htarget
      rw [visitNext_assign_refused a rounds value pos hm,
        visitNext_assign_refused b rounds' value pos htarget]
      exact .error h
    | ok hops =>
      rw [hm] at htarget
      rw [visitNext_of_stores a rounds (.assign hm),
        visitNext_of_stores b rounds' (.assign htarget)]
      exact storing_alike (heval value List.mem_cons_self) (fun _ _ h => hx.writing h hops) h
  | _ => cases he

end

end

end Evaluator

end SmallLisp
