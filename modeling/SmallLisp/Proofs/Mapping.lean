import SmallLisp.Proofs.Parameters

/-!
# Mapping a function over an array

The native function `map` makes all its calls from the frame of its own call, one after another, while
calls that are written out each have a frame of their own. A call leaves the frame that it is made from
as it was, unless the body of the function is itself a declaration (`Evaluator.callNext_tidy`), so that
one frame for all calls is as good as one for each (`Eval.inChild_mapM`). A body that is a declaration
declares its name in the frame of the call: the second call from the same frame finds it there. Main
statement: `Evaluator.map_itemwise`.
-/

set_option autoImplicit false

namespace SmallLisp

open Scope

/-- The name that a call of the function declares in the frame that it is made from. -/
def Callable.declares? : Callable → Option String
  | .function _ body => body.declares?
  | .native _ => none

/-! ## Outcomes of one class -/

/-- Errors whose faults are of one kind, whatever is blamed for them, or the same failure otherwise. -/
def Failure.SameClass : Failure → Failure → Prop
  | .error e, .error e' => e.kind = e'.kind
  | .unencodable, .unencodable => True
  | .exhausted, .exhausted => True
  | _, _ => False

/-- The same value, or failures of one class, and the same machine. -/
inductive Outcome.SameClass {α : Type} : Outcome α → Outcome α → Prop
  | ok (a : α) (m : Machine) : SameClass (.ok a m) (.ok a m)
  | error {f g : Failure} (h : f.SameClass g) (m : Machine) : SameClass (.error f m) (.error g m)

namespace Failure.SameClass

theorem refl : ∀ f : Failure, f.SameClass f
  | .error _ => rfl
  | .unencodable => trivial
  | .exhausted => trivial

theorem symm {f g : Failure} (h : f.SameClass g) : g.SameClass f := by
  cases f with
  | error e =>
    cases g with
    | error e' => exact Eq.symm h
    | _ => exact h
  | _ => cases g <;> exact h

theorem blame {f g : Failure} (h : f.SameClass g) (place : Position) :
    (f.blame place).SameClass g := by
  cases f <;> cases g <;> exact h

end Failure.SameClass

namespace Outcome.SameClass

variable {α : Type}

theorem refl (o : Outcome α) : SameClass o o := by
  cases o with
  | ok a m => exact .ok a m
  | error f m => exact .error (.refl f) m

theorem symm {o o' : Outcome α} (h : SameClass o o') : SameClass o' o := by
  cases h with
  | ok a m => exact .ok a m
  | error h m => exact .error h.symm m

theorem blaming {x : Eval α} {m : Machine} {o : Outcome α} (h : SameClass (x m) o)
    (place : Position) : SameClass (Eval.blaming place x m) o := by
  rw [Eval.blaming]
  generalize x m = p at h
  cases h with
  | ok a n => exact .ok a n
  | error h n => exact .error (h.blame place) n

theorem bind {β : Type} {x y : Eval α} {f g : α → Eval β} {m : Machine}
    (h : SameClass (x m) (y m)) (hf : ∀ a n, SameClass (f a n) (g a n)) :
    SameClass ((x >>= f) m) ((y >>= g) m) := by
  show SameClass (EStateM.bind x f m) (EStateM.bind y g m)
  rw [EStateM.bind, EStateM.bind]
  generalize x m = o at h ⊢
  generalize y m = p at h ⊢
  cases h with
  | ok a n => exact hf a n
  | error h n => exact .error h n

theorem mapM {β : Type} {f g : α → Eval β} (h : ∀ a n, SameClass (f a n) (g a n)) (as : List α)
    (m : Machine) : SameClass (as.mapM f m) (as.mapM g m) := by
  induction as generalizing m with
  | nil => exact .ok [] m
  | cons a as ih =>
    rw [List.mapM_cons, List.mapM_cons]
    exact bind (h a m) fun b n => bind (ih n) fun bs p => .refl _

end Outcome.SameClass

/-! ## One frame for all -/

/-- A fresh frame hides nothing. -/
theorem Scope.value?_child (s : Scope) (x : String) : s.child.value? x = s.value? x := by
  show (findIn x (.empty :: s.frames)).map Prod.snd = (findIn x s.frames).map Prod.snd
  rw [findIn, Frame.get?_empty]
  cases findIn x s.frames <;> rfl

namespace Eval

variable {α β : Type}

/-- In a fresh frame a computation leaves that frame empty. -/
def Tidy (x : Eval α) : Prop := ∀ m : Machine, ∃ n : Machine, x.after m.child = n.child

theorem inChild_bind_pure (x : Eval α) (f : α → β) :
    inChild (x >>= fun a => pure (f a)) = inChild x >>= fun a => pure (f a) := by
  funext m
  rw [inChild_apply]
  cases ho : x m.child with
  | ok a p =>
    have hin : inChild x m = .ok a p.enclosing := by rw [inChild_apply, ho]
    rw [bind_ok ho, bind_ok hin]
    rfl
  | error e p =>
    have hin : inChild x m = .error e p.enclosing := by rw [inChild_apply, ho]
    rw [bind_error ho, bind_error hin]

theorem Tidy.inChild_bind {x : Eval α} (hx : Tidy x) (f : α → Eval β) :
    inChild (x >>= f) = inChild x >>= fun a => inChild (f a) := by
  funext m
  obtain ⟨n, hn⟩ := hx m
  rw [inChild_apply]
  cases ho : x m.child with
  | ok a p =>
    rw [after_ok ho] at hn
    have hin : inChild x m = .ok a p.enclosing := by rw [inChild_apply, ho]
    rw [bind_ok ho, bind_ok hin, inChild_apply, hn]
    rfl
  | error e p =>
    have hin : inChild x m = .error e p.enclosing := by rw [inChild_apply, ho]
    rw [bind_error ho, bind_error hin]

/-- Computations that leave their frame empty may share one. -/
theorem inChild_mapM {f : α → Eval β} (hf : ∀ a, Tidy (f a)) (as : List α) :
    inChild (as.mapM f) = as.mapM fun a => inChild (f a) := by
  induction as with
  | nil => rfl
  | cons a as ih =>
    rw [List.mapM_cons, List.mapM_cons, (hf a).inChild_bind]
    simp only [inChild_bind_pure, ih]

/-- Nothing shares a frame where there is at most one computation. -/
theorem inChild_mapM_of_length_le_one (f : α → Eval β) {as : List α} (h : as.length ≤ 1) :
    inChild (as.mapM f) = as.mapM fun a => inChild (f a) := by
  match as, h with
  | [], _ => rfl
  | [a], _ =>
    rw [List.mapM_cons, List.mapM_cons]
    exact inChild_bind_pure (f a) fun b => [b]

/-- A computation that gives no names to a fresh frame leaves it empty. -/
theorem tidy_of_evolves {W : Nat → String → Prop} {x : Eval α}
    (h : ∀ m, Evolves 0 none W m.scope.frames (x.after m).scope.frames) : Tidy x := by
  intro m
  have hev := h m.child
  generalize x.after m.child = n at hev ⊢
  obtain ⟨⟨frame, outer⟩, console⟩ := n
  have hnames : some frame.names = some [] := hev.names 0 (Nat.le_refl 0)
  have hlength : outer.length = m.scope.frames.length := Nat.succ.inj hev.length
  have hframe : frame = .empty := by
    obtain ⟨bindings⟩ := frame
    obtain rfl : bindings = [] := List.map_eq_nil_iff.1 (Option.some.inj hnames)
    rfl
  cases outer with
  | nil => cases hlength
  | cons f outer => exact ⟨⟨⟨f, outer⟩, console⟩, by rw [hframe]; rfl⟩

end Eval

/-! ## Calls -/

namespace Evaluator

variable {lower : Evaluator}

/-- What a call by a name comes to, in a frame of its own and with an error blamed on its place, once the
name stands for this function and the arguments have come to these values. -/
def callOf (ev : Evaluator) (name : String) (callee : Callable) (args : List Value)
    (place : Position) : Eval Value :=
  Eval.blaming place (Eval.inChild do
    checkCount name callee.arity args.length
    ev.callNext callee args)

theorem checkCount_apply (name : String) (arity : Arity) (count : Nat) (m : Machine) :
    checkCount name arity count m =
      if arity.accepts count then .ok () m
      else .error (.ofFault (.wrongCount name arity count)) m := by
  rw [checkCount]
  split <;> rfl

/-- A call whose name stands for a function and whose arguments come to values and change nothing. -/
theorem evaluate_next_call {name : String} {w : Value} {callee : Callable} {es : List Expr}
    {args : List Value} {m : Machine} (hname : m.scope.value? name = some w)
    (hw : w.callable? = some callee)
    (hargs : es.mapM lower.evaluate m.child = .ok args m.child) (rounds : Nat) (place : Position) :
    (lower.next rounds).evaluate (.call (.named name) es place) m =
      lower.callOf name callee args place m := by
  have hvalue : m.child.scope.value? name = some w := by
    rw [← hname]
    exact value?_child m.scope name
  have hlength : es.length = args.length := Eval.length_of_mapM hargs
  have hvisit : (lower.next rounds).visit (.call (.named name) es place) m.child =
      (checkCount name callee.arity args.length >>= fun _ => lower.callNext callee args)
        m.child := by
    show lower.callNamed name es m.child = _
    rw [callNamed_apply, hvalue, invokeNamed]
    simp only [hw, hlength]
    by_cases haccepts : callee.arity.accepts args.length
    · have hcount : checkCount name callee.arity args.length m.child = .ok () m.child := by
        rw [checkCount_apply, if_pos haccepts]
      rw [Eval.bind_ok hcount, Eval.bind_ok hcount, Eval.bind_ok hargs]
    · have hcount := (checkCount_apply name callee.arity args.length m.child).trans
        (if_neg haccepts)
      rw [Eval.bind_error hcount, Eval.bind_error hcount]
  rw [evaluate, callOf, Eval.blaming, Eval.blaming, Eval.inChild_apply, Eval.inChild_apply, hvisit]
  rfl

theorem enter_evolves (hl : lower.Scoped anyVariable) (params : List String) (body : Expr)
    (args : List Value) (m : Machine) :
    Evolves body.reach none anyVariable m.scope.frames
      ((lower.enter params body args).after m).scope.frames := by
  obtain ⟨-, hev⟩ := Eval.after_declareAll (params.zip args) m.child (W := anyVariable)
  refine Eval.inChild_evolves (E := body.assigns?) ?_
  rw [Eval.after_bind]
  cases hp : Eval.declareAll (params.zip args) m.child with
  | error f p =>
    rw [Eval.after_error hp] at hev
    exact hev.expose.mono (Nat.le_add_left 1 _)
  | ok _ p =>
    rw [Eval.after_ok hp] at hev
    exact (hev.expose.mono (Nat.le_add_left 1 _)).trans (hl (.visit body) p)

/-- A native function of one argument calls nothing and touches no frame. -/
theorem perform_one_scope (call : Callable → List Value → Eval Value) (f : Native) (v : Value)
    (m : Machine) : ((f.perform call [v]).after m).scope = m.scope := by
  have hfault {α : Type} (r : Except Fault α) : (Eval.ofFault r).after m = m := by
    cases r <;> rfl
  cases f <;> cases v <;> first | rfl | simp only [Native.perform, hfault]

/-- A call leaves the frame that it is made from empty, unless it declares a name in it. -/
theorem callNext_tidy (hl : lower.Scoped anyVariable) {callee : Callable}
    (hc : callee.declares? = none) (v : Value) : Eval.Tidy (lower.callNext callee [v]) := by
  refine Eval.tidy_of_evolves (W := anyVariable) fun m => ?_
  rw [callNext_eq, Eval.after_bind, checkCount_apply]
  by_cases haccepts : callee.arity.accepts [v].length
  · rw [if_pos haccepts]
    cases callee with
    | native f =>
      show Evolves 0 none anyVariable m.scope.frames ((f.perform lower.call [v]).after m).scope.frames
      rw [perform_one_scope]
      exact .refl ..
    | function params body =>
      have hev := enter_evolves hl params body [v] m
      rwa [Expr.reach, show body.declares? = none from hc] at hev
  · rw [if_neg haccepts]
    exact .refl ..

/-- Apart from the name of a function that refuses its arguments and from what is blamed, a call by a
name is a call in a frame of its own. -/
theorem inChild_callNext_sameClass (ev : Evaluator) (name : String) (callee : Callable)
    (args : List Value) (place : Position) (m : Machine) :
    Outcome.SameClass (Eval.inChild (ev.callNext callee args) m)
      (ev.callOf name callee args place m) := by
  by_cases haccepts : callee.arity.accepts args.length
  · have hcount : checkCount name callee.arity args.length = pure () := by
      rw [checkCount, if_pos haccepts]
    rw [callOf, hcount, pure_bind]
    exact ((Outcome.SameClass.refl _).blaming place).symm
  · have hrefused (called : String) (f : Unit → Eval Value) :
        Eval.inChild (checkCount called callee.arity args.length >>= f) m =
          .error (.ofFault (.wrongCount called callee.arity args.length)) m := by
      have hcount := (checkCount_apply called callee.arity args.length m.child).trans
        (if_neg haccepts)
      rw [Eval.inChild_apply, Eval.bind_error hcount]
      rfl
    have hclass : Failure.SameClass (.ofFault (.wrongCount callee.label callee.arity args.length))
        ((Failure.ofFault (.wrongCount name callee.arity args.length)).blame place) := rfl
    rw [callOf, callNext_eq, hrefused, Eval.blaming, hrefused]
    exact .error hclass m

/-! ## The native function -/

/-- A call of a function with one argument, by a name at a place. -/
structure Application where
  name : String
  place : Position
  arg : Value

/-- Makes such a call of a function. -/
def apply (ev : Evaluator) (callee : Callable) (c : Application) : Eval Value :=
  ev.callOf c.name callee [c.arg] c.place

section
variable {fn : Value} {callee : Callable} (hfn : fn.callable? = some callee)
include hfn

theorem callOf_map (rounds : Nat) (name : String) (place : Position) (items : List Value)
    (frozen : Bool) :
    (lower.next rounds).callOf name (.native .map) [.array items frozen, fn] place =
      Eval.blaming place (Eval.inChild ((items.mapM fun v => lower.callNext callee [v]) >>=
        fun vs => pure (.array vs))) := by
  have hmapping : Native.mapping fn = .ok callee := by
    rw [Native.mapping, hfn]
  have hperform : Native.map.perform (lower.next rounds).call [.array items frozen, fn] =
      (items.mapM fun v => lower.callNext callee [v]) >>= fun vs => pure (.array vs) := by
    show (Eval.ofFault (Native.mapping fn) >>= fun callable =>
      (items.mapM fun v => lower.callNext callable [v]) >>= fun vs => pure (Value.array vs)) = _
    rw [hmapping]
    rfl
  rw [← hperform]
  rfl

/-- Calls from one frame are as good as calls from a frame each if they leave it empty or there is at most
one. -/
theorem map_sameClass (rounds depth : Nat) (name : String) (place : Position) (frozen : Bool)
    (calls : List Application) (h : callee.declares? = none ∨ calls.length ≤ 1) (m : Machine) :
    Outcome.SameClass
      ((ofDepth rounds (depth + 1)).callOf name (.native .map)
        [.array (calls.map (·.arg)) frozen, fn] place m)
      ((calls.mapM ((ofDepth rounds depth).apply callee) >>= fun vs => pure (.array vs)) m) := by
  have hshare : Eval.inChild ((calls.map (·.arg)).mapM
      fun v => (ofDepth rounds depth).callNext callee [v]) =
      calls.mapM fun c => Eval.inChild ((ofDepth rounds depth).callNext callee [c.arg]) := by
    rcases h with hnone | hone
    · rw [Eval.inChild_mapM (callNext_tidy (ofDepth_scoped rounds depth) hnone), List.mapM_map]
      rfl
    · rw [Eval.inChild_mapM_of_length_le_one _ (by rwa [List.length_map]), List.mapM_map]
      rfl
  have hcalls : Outcome.SameClass
      ((calls.mapM fun c => Eval.inChild ((ofDepth rounds depth).callNext callee [c.arg])) m)
      (calls.mapM ((ofDepth rounds depth).apply callee) m) :=
    .mapM (fun c n => inChild_callNext_sameClass _ c.name callee [c.arg] c.place n) calls m
  rw [ofDepth, callOf_map hfn, Eval.inChild_bind_pure, hshare]
  exact (hcalls.bind fun vs n => .refl _).blaming place

end

/-! ## Bodies that are declarations -/

/-- A body that is a declaration and comes to something leaves its name in the frame that it is for. -/
theorem visitNext_declares_bound {rounds : Nat} (hl : lower.Scoped anyVariable) {body : Expr}
    {x : String} (hx : body.declares? = some x) {m n : Machine} {v : Value}
    (h : lower.visitNext rounds body m = .ok v n) :
    (valueAt n.scope.frames m.scope.home x).isSome := by
  cases hheld : valueAt m.scope.frames m.scope.home x with
  | some w =>
    rw [visitNext_declares_held hx (by rw [hheld]; rfl)] at h
    cases h
  | none =>
    have hev := visit_declares rounds hl hx hheld
    rw [Eval.after_ok h] at hev
    refine hev.bound _ x ?_
    rw [Machine.frames_declaring, valueAt_bind, hheld,
      if_pos ⟨rfl, rfl, m.scope.home_lt_length⟩]
    rfl

/-- A function of one parameter is called in a frame of that parameter. -/
theorem callNext_one {params : List String} {v : Value} (hlen : [v].length = params.length)
    (body : Expr) (m : Machine) :
    lower.callNext (.function params body) [v] m =
      match lower.visit body (m.entering params [v]) with
      | .ok w n => .ok w n.enclosing
      | .error f n => .error f n.enclosing := by
  obtain ⟨p, rfl⟩ : ∃ p, params = [p] := List.length_eq_one_iff.1 hlen.symm
  exact call_function hlen 0 (List.nodup_cons.2 ⟨List.not_mem_nil, List.nodup_nil⟩) body m

theorem length_of_callNext_ok {params : List String} {body : Expr} {v w : Value} {m n : Machine}
    (h : lower.callNext (.function params body) [v] m = .ok w n) : [v].length = params.length := by
  by_cases haccepts : (Callable.function params body).arity.accepts [v].length
  · exact Arity.accepts_exactly.1 haccepts
  · have hcount := (checkCount_apply (Callable.function params body).label
      (Callable.function params body).arity [v].length m).trans (if_neg haccepts)
    rw [callNext_eq, Eval.bind_error hcount] at h
    cases h

section
variable {params : List String} {body : Expr} {x : String} (hx : body.declares? = some x)
include hx

/-- A call whose body is a declaration leaves the name in the frame that it is made from. -/
theorem callNext_declares_bound (hl : lower.Scoped anyVariable) {rounds : Nat} {v w : Value}
    {m n : Machine}
    (h : (lower.next rounds).callNext (.function params body) [v] m = .ok w n) :
    (valueAt n.scope.frames 0 x).isSome := by
  rw [callNext_one (length_of_callNext_ok h)] at h
  cases hvisit : lower.visitNext rounds body (m.entering params [v]) with
  | error f p =>
    rw [show (lower.next rounds).visit body _ = _ from hvisit] at h
    cases h
  | ok u p =>
    rw [show (lower.next rounds).visit body _ = _ from hvisit] at h
    cases h
    obtain ⟨u, hu⟩ := Option.isSome_iff_exists.1 (visitNext_declares_bound hl hx hvisit)
    have hout : valueAt p.enclosing.scope.frames 0 x = some u := valueAt_enclosing hu
    rw [hout]
    rfl

/-- A call whose body is a declaration of a name that is already there is refused. -/
theorem callNext_declares_held (ev : Evaluator) (rounds : Nat) {v : Value}
    (hlen : [v].length = params.length) {m : Machine}
    (hheld : (valueAt m.scope.frames 0 x).isSome) :
    (ev.next rounds).callNext (.function params body) [v] m =
      .error (.ofFault (.redeclared x)) m := by
  have hvisit : (ev.next rounds).visit body (m.entering params [v]) =
      .error (.ofFault (.redeclared x)) (m.entering params [v]) :=
    visitNext_declares_held hx hheld
  rw [callNext_one hlen, hvisit]
  rfl

end

/-- Where the body of a function is a declaration, the first of two calls or more decides: they fail
there, or at the second, which finds what the first has declared. -/
theorem map_declares (rounds depth : Nat) {fn : Value} {callee : Callable}
    (hfn : fn.callable? = some callee) {x : String} (hx : callee.declares? = some x)
    (name : String) (place : Position) (frozen : Bool) (first second : Application)
    (rest : List Application) (m : Machine) :
    Outcome.SameClass
      ((ofDepth rounds (depth + 1)).callOf name (.native .map)
        [.array ((first :: second :: rest).map (·.arg)) frozen, fn] place m)
      (match (ofDepth rounds depth).apply callee first m with
        | .ok _ n => .error (.error ⟨.redeclared x, some place⟩) n
        | .error f n => .error f n) := by
  obtain ⟨params, body, rfl⟩ : ∃ params body, callee = .function params body := by
    cases callee with
    | function params body => exact ⟨params, body, rfl⟩
    | native f => cases hx
  have hfirst := inChild_callNext_sameClass (ofDepth rounds depth) first.name
    (.function params body) [first.arg] first.place m
  rw [ofDepth, callOf_map hfn, List.map_cons, List.map_cons, List.mapM_cons]
  refine Outcome.SameClass.blaming ?_ place
  show Outcome.SameClass _ (match (ofDepth rounds depth).callOf first.name _ [first.arg]
    first.place m with | .ok _ n => _ | .error f n => _)
  rw [Eval.inChild_apply] at hfirst ⊢
  cases hcall : (ofDepth rounds depth).callNext (.function params body) [first.arg] m.child with
  | error f n =>
    rw [hcall] at hfirst
    rw [Eval.bind_error (Eval.bind_error hcall _)]
    generalize (ofDepth rounds depth).callOf first.name _ [first.arg] first.place m = o at hfirst ⊢
    cases hfirst with
    | error h => exact .error h n.enclosing
  | ok w n =>
    rw [hcall] at hfirst
    generalize (ofDepth rounds depth).callOf first.name _ [first.arg] first.place m = o at hfirst ⊢
    cases hfirst
    have hlen := length_of_callNext_ok hcall
    cases depth with
    | zero =>
      rw [callNext_one hlen] at hcall
      cases hcall
    | succ depth =>
      have hbound := callNext_declares_bound hx (ofDepth_scoped rounds depth) hcall
      have hsecond : (ofDepth rounds (depth + 1)).callNext (.function params body) [second.arg] n =
          .error (.ofFault (.redeclared x)) n :=
        callNext_declares_held (v := second.arg) hx (ofDepth rounds depth) rounds hlen hbound
      have hclass : Failure.SameClass ((Failure.ofFault (.redeclared x)))
          (.error ⟨.redeclared x, some place⟩) := rfl
      rw [List.mapM_cons, bind_assoc, Eval.bind_ok hcall]
      simp only [bind_assoc]
      rw [Eval.bind_error hsecond]
      exact .error hclass n.enclosing

/-- A call of `map` with an array and a function against calls of the function that are written out, one
for each item, by whatever names and in whatever places, on every machine. Both come to the same array,
or fail at the same item with an error of the same class, and leave the same machine, as long as the body
of the function is no declaration; so they do with any function on at most one item. Where the body is a
declaration and there are more items, the first call fails as it would on its own, or else the second one
finds its name declared. -/
theorem map_itemwise (rounds depth : Nat) {fn : Value} {callee : Callable}
    (hfn : fn.callable? = some callee) (name : String) (place : Position) (frozen : Bool)
    (calls : List Application) (m : Machine) :
    (∀ (ev : Evaluator) (n : Machine) (x : String) (w : Value) (c : Callable) (es : List Expr)
      (args : List Value) (p : Position), n.scope.value? x = some w → w.callable? = some c →
      es.mapM ev.evaluate n.child = .ok args n.child →
      (ev.next rounds).evaluate (.call (.named x) es p) n = ev.callOf x c args p n) ∧
    (∀ k, callee.declares? = none ∨ k ≤ 1 →
      Outcome.SameClass
        ((ofDepth rounds (depth + 1)).callOf name (.native .map)
          [.array ((calls.take k).map (·.arg)) frozen, fn] place m)
        (((calls.take k).mapM ((ofDepth rounds depth).apply callee) >>=
          fun vs => pure (.array vs)) m)) ∧
    ∀ x first second rest, callee.declares? = some x → calls = first :: second :: rest →
      Outcome.SameClass
        ((ofDepth rounds (depth + 1)).callOf name (.native .map)
          [.array (calls.map (·.arg)) frozen, fn] place m)
        (match (ofDepth rounds depth).apply callee first m with
          | .ok _ n => .error (.error ⟨.redeclared x, some place⟩) n
          | .error f n => .error f n) := by
  refine ⟨fun ev n x w c es args p hx hw hargs => ?_, fun k hk => ?_, ?_⟩
  · exact evaluate_next_call hx hw hargs rounds p
  · refine map_sameClass hfn rounds depth name place frozen (calls.take k) (hk.imp_right ?_) m
    intro hone
    exact Nat.le_trans (List.length_take_le k calls) hone
  · rintro x first second rest hx rfl
    exact map_declares rounds depth hfn hx name place frozen first second rest m

/-- A function that doubles a number and one whose body is a declaration, called by name and mapped over
two items. -/
theorem map_itemwise_doubling :
    let pos := Position.start
    let doubling := Expr.call (.operator .add) [.name "x" pos, .name "x" pos] pos
    let double := Value.function ["x"] doubling
    let declaring := Expr.declareAs "y" (.name "x" pos) pos
    let calls : List Application := [⟨"f", pos, .int 1⟩, ⟨"f", pos, .int 2⟩]
    let m : Machine := ⟨.root ⟨[⟨"f", double⟩]⟩, .reading []⟩
    (double.callable? = some (.function ["x"] doubling) ∧
      (ofDepth 1 5).evaluate (.call (.named "f") [.literal (.int 1) pos] pos) m =
        (ofDepth 1 4).apply (.function ["x"] doubling) ⟨"f", pos, .int 1⟩ m ∧
      (ofDepth 1 5).callOf "map" (.native .map) [.array [.int 1, .int 2], double] pos m =
        .ok (.array [.int 2, .int 4]) m ∧
      Outcome.SameClass (.ok (.array [.int 2, .int 4]) m)
        ((calls.mapM ((ofDepth 1 4).apply (.function ["x"] doubling)) >>=
          fun vs => pure (Value.array vs)) m)) ∧
    Outcome.SameClass
      ((ofDepth 1 5).callOf "map" (.native .map)
        [.array [.int 1, .int 2], .function ["x"] declaring] pos m)
      (.error (.error ⟨.redeclared "y", some pos⟩) m) := by
  intro pos doubling double declaring calls m
  have hfn : double.callable? = some (.function ["x"] doubling) := rfl
  obtain ⟨hcalls, hsame, -⟩ := map_itemwise 1 4 hfn "map" pos false calls m
  have hmap : (ofDepth 1 5).callOf "map" (.native .map) [.array [.int 1, .int 2], double] pos m =
    .ok (.array [.int 2, .int 4]) m := rfl
  have htwo : Outcome.SameClass
      ((ofDepth 1 5).callOf "map" (.native .map) [.array [.int 1, .int 2], double] pos m)
      ((calls.mapM ((ofDepth 1 4).apply (.function ["x"] doubling)) >>=
        fun vs => pure (Value.array vs)) m) := hsame 2 (.inl rfl)
  rw [hmap] at htwo
  refine ⟨⟨hfn, ?_, hmap, htwo⟩, ?_⟩
  · exact hcalls (ofDepth 1 4) m "f" double _ [_] [.int 1] pos rfl rfl rfl
  · obtain ⟨-, -, hdeclares⟩ := @map_itemwise 1 4 (.function ["x"] declaring)
      (.function ["x"] declaring) rfl "map" pos false calls m
    exact hdeclares "y" _ _ [] rfl rfl

/-- A function whose body is a declaration can be called twice but not mapped over two items. -/
theorem map_not_itemwise : ¬ ∀ (rounds depth : Nat) (fn : Value) (callee : Callable) (name : String)
    (place : Position) (frozen : Bool) (calls : List Application) (m : Machine),
    fn.callable? = some callee →
    Outcome.SameClass
      ((ofDepth rounds (depth + 1)).callOf name (.native .map)
        [.array (calls.map (·.arg)) frozen, fn] place m)
      ((calls.mapM ((ofDepth rounds depth).apply callee) >>= fun vs => pure (.array vs)) m) := by
  intro h
  let body := Expr.declareAs "y" (.name "x" .start) .start
  let m : Machine := ⟨.root .empty, .reading []⟩
  let calls : List Application := [⟨"f", .start, .int 1⟩, ⟨"f", .start, .int 2⟩]
  have hsame := h 1 4 (.function ["x"] body) (.function ["x"] body) "map" .start false calls m rfl
  have hcalls : (calls.mapM ((ofDepth 1 4).apply (.function ["x"] body)) >>=
      fun vs => pure (Value.array vs)) m = .ok (.array [.unit, .unit]) m := rfl
  rw [hcalls] at hsame
  cases hsame

end Evaluator

end SmallLisp
