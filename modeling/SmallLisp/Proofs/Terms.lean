import Mathlib.Data.List.Basic
import SmallLisp.Proofs.Dialogue
import SmallLisp.Proofs.Encoding

/-!
# Terms that one level of nesting keeps to

Terms are closed if values and machines stay within them whatever operators, native functions and
declarations do (`Terms.Closed`), and fair to a request if it may also ask for what it needs
(`Terms.Fair`). Main statement: `Evaluator.next_dialogue`, one level of nesting keeps to terms that are
fair to the request it answers.
-/

set_option autoImplicit false

namespace SmallLisp

open Scope

/-- The value that is called. -/
def Callable.value : Callable → Value
  | function params body => .function params body
  | native f => .native f

namespace Request

/-- Whether a request may call something. -/
def calls : Request → Bool
  | visit (.call (.named _) _ _) | call _ _ => true
  | visit _ => false

/-- The name that a request looks up. -/
def reads : Request → Option String
  | visit (.name x _) | visit (.call (.named x) _ _) => some x
  | _ => none

/-- The relation that a request decides. -/
def relates : Request → Option Relation
  | visit (.call (.operator (.relation r)) _ _) => some r
  | _ => none

end Request

namespace Terms

/-- Terms within which machines and values stay. -/
structure Closed (T : Terms) : Prop where
  child : ∀ m, T.machine m → T.machine m.child
  bind : ∀ m hops x v, T.machine m → T.value v →
    T.machine { m with scope := m.scope.modify hops (·.bind x v) }
  set : ∀ m hops x v, T.machine m → T.value v →
    T.machine { m with scope := m.scope.modify hops (·.set x v) }
  echo : ∀ m t, T.machine m → T.machine { m with console := m.console.echo t }
  line : ∀ m line c, T.machine m → m.console.readLine? = some (line, c) →
    T.value (.string line) ∧ T.machine { m with console := c }
  unit : T.value .unit
  int : ∀ n, T.value (.int n)
  bool : ∀ b, T.value (.bool b)
  text : ∀ s : String, T.value (.string (Text.ofString s))
  array : ∀ vs, (∀ v ∈ vs, T.value v) → T.value (.array vs)
  item : ∀ vs i, T.value (.array vs i) → ∀ v ∈ vs, T.value v
  joined : ∀ t i v, T.value (.string t i) → T.value v → T.value (.string (t ++ v.render))
  rendered : ∀ v, T.value v → T.value (.string v.render)
  character : ∀ t i, T.value (.string t i) → ∀ c ∈ t, T.value (.char c)
  coded : T.value (.native .char) → ∀ c, T.value (.char c)
  callable : ∀ v callee, T.value v → v.callable? = some callee → T.value callee.value
  fault : ∀ f : Fault, f.Genuine → T.fails (.ofFault f)
  exhausted : T.fails .exhausted

/-- Closed terms within which a request is, and may look up, ask for and fail as it needs. -/
structure Fair (T : Terms) (r : Request) : Prop extends Closed T where
  given : ∀ callee args, r = .call callee args →
    T.value callee.value ∧ ∀ v ∈ args, T.value v
  function : ∀ params body pos, r = .visit (.function params body pos) →
    T.value (.function params body)
  lookup : ∀ x m v, r.reads = some x → T.machine m → m.scope.value? x = some v → T.value v
  relate : ∀ rel a b f, r.relates = some rel → T.value a → T.value b →
    a.relate rel b = .error f → T.fails f
  part : ∀ c ∈ r.parts, ∀ n, T.machine n → T.asks (.part c) n.child
  body : ∀ params body n, r.calls = true → T.value (.function params body) → T.machine n →
    T.asks (.body body) n
  call : ∀ callee args n, r.calls = true → T.value callee.value → (∀ v ∈ args, T.value v) →
    T.machine n → T.asks (.call callee args) n

namespace Closed

variable {T : Terms} (hT : T.Closed) {a b v : Value}
include hT

theorem literal (l : Literal) : T.value l.value := by
  cases l with
  | int n => exact hT.int n
  | string content => exact hT.text content
  | bool b => exact hT.bool b

theorem add (ha : T.value a) (hb : T.value b) : Yields T.value (a.add b) := by
  cases a with
  | unit i => exact hb
  | string t i => exact hT.joined t i b ha hb
  | int c i | bool c i =>
    cases haddend : b.addend? with
    | some m =>
      simp only [Value.add, haddend]
      exact hT.int _
    | none =>
      simp only [Value.add, haddend]
      trivial
  | _ => trivial

theorem index (ha : T.value a) : Yields T.value (a.index b) := by
  cases a with
  | string t i =>
    refine (Value.number_yields _ b).bind fun n _ => ?_
    exact (Value.item_yields t n).map fun c hc => hT.character t i ha c hc
  | array vs i =>
    refine (Value.number_yields _ b).bind fun n _ => ?_
    exact (Value.item_yields vs n).mono fun v hv => hT.item vs i ha v hv
  | _ => trivial

theorem convert (hv : T.value v) {kind : Kind} (hkind : kind = .char → T.value (.native .char)) :
    Yields (fun o => ∀ c, o = some c → T.value c) (v.convert kind) := by
  cases kind with
  | string =>
    rintro c ⟨⟩
    exact hT.rendered v hv
  | bool =>
    refine v.truth_yields.map fun b _ => ?_
    rintro c ⟨⟩
    exact hT.bool b
  | int =>
    cases v <;> rintro c ⟨⟩ <;> exact hT.int _
  | char =>
    cases v with
    | int n i =>
      intro c hc
      obtain ⟨code, -, rfl⟩ := Option.map_eq_some_iff.1 hc
      exact hT.coded (hkind rfl) code
    | _ => rintro c ⟨⟩
  | _ => rintro c ⟨⟩

theorem require (hv : T.value v) (kind : Kind) (hkind : kind = .char → T.value (.native .char))
    (operation : String) : Yields T.value (v.require kind operation) := by
  have hcoerce : Yields (fun o => ∀ c, o = some c → T.value c) (v.coerce kind) := by
    rw [Value.coerce]
    split
    · rintro c ⟨⟩
      exact hv
    · exact hT.convert hv hkind
  refine hcoerce.bind fun o ho => ?_
  cases o with
  | none => trivial
  | some c => exact ho c rfl

theorem items (f : Native) (hv : T.value v) :
    Yields (fun items => ∀ u ∈ items, T.value u) (f.items v) := by
  cases v with
  | array items i => exact hT.item items i hv
  | _ => trivial

theorem mapping (hv : T.value v) :
    Yields (fun callee => T.value callee.value) (Native.mapping v) := by
  rw [Native.mapping]
  cases hcallee : v.callable? with
  | none => trivial
  | some callee => exact hT.callable v callee hv hcallee

theorem number {r : Except Fault Value} (h : Yields (fun c => ∃ n, c = .int n) r) :
    Yields T.value r := by
  refine h.mono ?_
  rintro _ ⟨n, rfl⟩
  exact hT.int n

end Closed

end Terms

/-- Terms about what is asked for and about failures alone. -/
def Terms.ofTasks (asks : Task → Machine → Prop) (fails : Failure → Prop) : Terms :=
  ⟨fun _ => True, fun _ => True, asks, fails⟩

theorem Terms.ofTasks_closed {asks : Task → Machine → Prop} {fails : Failure → Prop}
    (hfault : ∀ f : Fault, f.Genuine → fails (.ofFault f)) (hexhausted : fails .exhausted) :
    (ofTasks asks fails).Closed := by
  constructor
  case fault => exact hfault
  case exhausted => exact hexhausted
  all_goals intros; trivial

/-- To relate two values goes wrong with a fault or for a text without a UTF-8 form. -/
theorem Value.relate_error {rel : Relation} {a b : Value} {f : Failure}
    (h : a.relate rel b = .error f) :
    (∃ fault : Fault, f = .ofFault fault ∧ fault.Genuine) ∨ f = .unencodable := by
  have hclosed : (Terms.ofTasks (fun _ _ => True) fun _ => True).Closed :=
    Terms.ofTasks_closed (fun _ _ => trivial) trivial
  have hrequire := hclosed.require (v := b) trivial a.kind (fun _ => trivial) "compare"
  rw [relate_eq] at h
  cases hb : b.require a.kind "compare" with
  | error fault =>
    rw [hb] at h hrequire
    cases h
    exact .inl ⟨fault, rfl, hrequire⟩
  | ok b' =>
    rw [hb] at h
    cases ho : a.compare b' with
    | error g =>
      simp only [ho] at h
      cases h
      exact .inr (compare_error ho).1
    | ok o =>
      simp only [ho] at h
      cases h

/-- An assignment is refused because there is no variable or because its value is immutable. -/
theorem Scope.assignable_genuine {s : Scope} {hops : Nat} {x : String} {f : Fault}
    (h : s.assignable hops x = .error f) : f.Genuine := by
  rw [Scope.assignable] at h
  split at h
  · cases h
    trivial
  · split at h
    · cases h
      trivial
    · cases h

theorem Value.eq_bool_of_relate {rel : Relation} {a b v : Value} (h : a.relate rel b = .ok v) :
    ∃ holds, v = .bool holds := by
  rw [relate_eq] at h
  split at h
  · cases h
  · split at h
    · cases h
    · cases h
      exact ⟨_, rfl⟩

/-! ## Operations of one level -/

namespace Asking

variable {T : Terms} {α : Type} {P : α → Prop}

theorem ofFault (hT : T.Closed) {r : Except Fault α} (h : Yields P r) :
    Asking T P fun _ => Eval.ofFault r := by
  cases r with
  | ok a => exact pure h
  | error f => exact throw (hT.fault f h)

theorem echo (hT : T.Closed) (t : Text) : Asking T (fun _ => True) fun _ => Eval.echo t :=
  fun m hm => .ok trivial (hT.echo m t hm)

theorem readLine (hT : T.Closed) :
    Asking T (fun line => T.value (.string line)) fun _ => Eval.readLine := by
  intro m hm
  have hfail : T.fails (.ofFault .endOfInput) := hT.fault .endOfInput trivial
  simp only [Eval.readLine]
  cases hline : m.console.readLine? with
  | none => exact .error hfail hm
  | some found =>
    obtain ⟨line, c⟩ := found
    obtain ⟨hvalue, hmachine⟩ := hT.line m line c hm hline
    exact .ok hvalue hmachine

theorem lookup (hT : T.Closed) {x : String}
    (hx : ∀ m v, T.machine m → m.scope.value? x = some v → T.value v) :
    Asking T T.value (fun _ => do Eval.ofFault ((← Eval.scope).lookup x)) := by
  intro m hm
  show Dialogue T T.value fun _ => Eval.ofFault (m.scope.lookup x) m
  rw [Scope.lookup_eq]
  cases hv : m.scope.value? x with
  | none => exact throw (hT.fault (.noVariable x) trivial) m hm
  | some v => exact .ok (hx m v hm hv) hm

theorem checkCount (hT : T.Closed) (name : String) (arity : Arity) (count : Nat) :
    Asking T (fun _ => arity.accepts count = true) fun _ =>
      Evaluator.checkCount name arity count := by
  simp only [Evaluator.checkCount]
  split
  · rename_i haccepts
    exact pure haccepts
  · rename_i haccepts
    exact throw (hT.fault (.wrongCount name arity count) (Bool.eq_false_iff.2 haccepts))

end Asking

/-- A part is what is evaluated in a fresh frame and takes the blame. -/
theorem Evaluator.evaluate_eq_run (ev : Evaluator) (e : Expr) (m : Machine) :
    ev.evaluate e m = (Task.part e).run ev m.child := by
  rw [evaluate, Eval.blaming, Eval.inChild_apply, Task.run, Task.request, answer]
  cases ev.visit e m.child <;> rfl

/-- A single thing asked for. -/
theorem Dialogue.task {T : Terms} {t : Task} {n : Machine} {x : Evaluator → Outcome Value}
    (hx : ∀ ev, x ev = t.run ev n) (ht : T.asks t n) : Dialogue T T.value x := by
  have heq : x = fun ev => (t.run ev n).andThen fun v p => .ok v p := by
    funext ev
    rw [hx]
    cases t.run ev n <;> rfl
  rw [heq]
  exact .ask ht fun v p hv hp => .ok hv hp

namespace Asking

variable {T : Terms}

theorem evaluate {e : Expr} (he : ∀ n, T.machine n → T.asks (.part e) n.child) :
    Asking T T.value fun ev => ev.evaluate e :=
  fun m hm => .task (fun ev => ev.evaluate_eq_run e m) (he m hm)

theorem call {callee : Callable} {args : List Value}
    (hcall : ∀ n, T.machine n → T.asks (.call callee args) n) :
    Asking T T.value fun ev => ev.call callee args := by
  intro m hm
  refine .task (fun ev => ?_) (hcall m hm)
  show ev.call callee args m = _
  rw [Task.run, Task.request, Evaluator.answer]
  cases ev.call callee args m <;> rfl

end Asking

/-- Declaring variables changes the innermost frame alone, and fails only on a name that is there. -/
theorem Terms.Closed.declareAll {T : Terms} (hT : T.Closed) {vs : List (String × Value)}
    (hvs : ∀ p ∈ vs, T.value p.2) {m : Machine} (hm : T.machine m) :
    (∃ f, Eval.declareAll vs m = .ok () { m with scope := ⟨f, m.scope.outer⟩ } ∧
      T.machine { m with scope := ⟨f, m.scope.outer⟩ }) ∨
    ∃ x f, Eval.declareAll vs m =
      .error (.ofFault (.redeclared x)) { m with scope := ⟨f, m.scope.outer⟩ } := by
  induction vs generalizing m with
  | nil => exact .inl ⟨m.scope.frame, rfl, hm⟩
  | cons p vs ih =>
    obtain ⟨x, v⟩ := p
    rw [Eval.declareAll_cons]
    cases hx : valueAt m.scope.frames 0 x with
    | some w =>
      have hheld := Option.isSome_of_eq_some hx
      exact .inr ⟨x, m.scope.frame, Eval.bind_error (Eval.declare_held hheld v) _⟩
    | none =>
      have hbind := hT.bind m 0 x v hm (hvs (x, v) List.mem_cons_self)
      rw [Eval.bind_ok (Eval.declare_new hx v)]
      exact ih (fun p hp => hvs p (List.mem_cons_of_mem _ hp)) hbind

namespace Asking

variable {T : Terms}

theorem enter (hT : T.Closed) (params : List String) {body : Expr} {args : List Value}
    (hargs : ∀ v ∈ args, T.value v) (hbody : ∀ n, T.machine n → T.asks (.body body) n) :
    Asking T T.value fun ev => ev.enter params body args := by
  intro m hm
  have hvs : ∀ p ∈ params.zip args, T.value p.2 := fun p hp => hargs p.2 (List.of_mem_zip hp).2
  simp only [Evaluator.enter, Eval.inChild_apply]
  rcases hT.declareAll hvs (hT.child m hm) with ⟨f, hok, hmachine⟩ | ⟨x, f, herror⟩
  · refine .task (fun ev => ?_) (hbody _ hmachine)
    rw [Eval.bind_ok hok, Task.run, Task.request, Evaluator.answer]
    cases ev.visit body _ <;> rfl
  · simp only [Eval.bind_error herror]
    exact .error (hT.fault (.redeclared x) trivial) hm

end Asking

/-! ## Native functions and calls -/

namespace Asking

variable {T : Terms}

theorem perform (hT : T.Closed) {f : Native} {args : List Value} (hf : T.value (.native f))
    (hargs : ∀ v ∈ args, T.value v) (haccepts : f.arity.accepts args.length = true)
    (hcall : ∀ callee args, T.value callee.value → (∀ v ∈ args, T.value v) →
      ∀ n, T.machine n → T.asks (.call callee args) n) :
    Asking T T.value fun ev => f.perform ev.call args := by
  have one (h : (Arity.exactly 1).accepts args.length = true) : ∃ v, args = [v] ∧ T.value v := by
    obtain ⟨v, rfl⟩ := List.length_eq_one_iff.1 (Arity.accepts_exactly.1 h)
    exact ⟨v, rfl, hargs v List.mem_cons_self⟩
  -- Each native function but its last case: that one is for a number of arguments not accepted.
  cases f with
  | print => exact (echo hT _).bind fun _ _ => pure hT.unit
  | println => exact (echo hT _).bind fun _ _ => pure hT.unit
  | readline =>
    obtain rfl := List.length_eq_zero_iff.1 (Arity.accepts_exactly.1 haccepts)
    exact (readLine hT).bind fun line hline => pure hline
  | parseint =>
    obtain ⟨v, rfl, hv⟩ := one haccepts
    cases v with
    | string t i => exact pure (hT.int _)
    | _ => exact throw (hT.fault (.wrongArgument ..) trivial)
  | append =>
    have hlength := Arity.accepts_atLeast.1 haccepts
    match args, hlength, hargs with
    | v :: w :: more, _, hargs =>
      refine (ofFault hT (hT.items .append (hargs v List.mem_cons_self))).bind fun items hitems => ?_
      refine pure (hT.array _ fun u hu => ?_)
      rcases List.mem_append.1 hu with hu | hu
      · exact hitems u hu
      · exact hargs u (List.mem_cons_of_mem _ hu)
  | length =>
    obtain ⟨v, rfl, hv⟩ := one haccepts
    cases v with
    | string t i => exact pure (hT.int _)
    | array items i => exact pure (hT.int _)
    | _ => exact throw (hT.fault (.noLength _) trivial)
  | map =>
    have hlength := Arity.accepts_exactly.1 haccepts
    match args, hlength, hargs with
    | [v, fn], _, hargs =>
      refine (ofFault hT (hT.items .map (hargs v List.mem_cons_self))).bind fun items hitems => ?_
      refine (ofFault hT (hT.mapping (hargs fn (by simp)))).bind fun callee hcallee => ?_
      have hcalls : ∀ item ∈ items, Asking T T.value fun ev => ev.call callee [item] := by
        refine fun item hitem => call (hcall callee [item] hcallee fun u hu => ?_)
        rw [List.mem_singleton.1 hu]
        exact hitems item hitem
      exact (mapM hcalls).bind fun vs hvs => pure (hT.array vs hvs)
  | int =>
    obtain ⟨v, rfl, hv⟩ := one haccepts
    exact ofFault hT (hT.require hv .int nofun "convert")
  | char =>
    obtain ⟨v, rfl, hv⟩ := one haccepts
    exact ofFault hT (hT.require hv .char (fun _ => hf) "convert")
  | string =>
    obtain ⟨v, rfl, hv⟩ := one haccepts
    exact ofFault hT (hT.require hv .string nofun "convert")
  | bool =>
    obtain ⟨v, rfl, hv⟩ := one haccepts
    exact ofFault hT (hT.require hv .bool nofun "convert")

end Asking

namespace Terms.Fair

variable {T : Terms} {r : Request} (hF : T.Fair r)
include hF

theorem evaluate {c : Expr} (hc : c ∈ r.parts) : Asking T T.value fun ev => ev.evaluate c :=
  .evaluate (hF.part c hc)

theorem callNext (hcalls : r.calls = true) {callee : Callable} {args : List Value}
    (hcallee : T.value callee.value) (hargs : ∀ v ∈ args, T.value v) :
    Asking T T.value fun ev => ev.callNext callee args := by
  simp only [Evaluator.callNext_eq]
  refine (Asking.checkCount hF.toClosed _ _ _).bind fun _ haccepts => ?_
  cases callee with
  | native f =>
    refine .perform hF.toClosed hcallee hargs haccepts fun callee args hcallee hargs n hn => ?_
    exact hF.call callee args n hcalls hcallee hargs hn
  | function params body =>
    exact .enter hF.toClosed params hargs fun n hn => hF.body params body n hcalls hcallee hn

theorem test {c : Expr} (hc : c ∈ r.parts) : Asking T (fun _ => True) fun ev => ev.test c :=
  (hF.evaluate hc).bind fun v _ => .ofFault hF.toClosed v.truth_yields

theorem combine {op : Value → Value → Except Fault Value} {first : Value} {es : List Expr}
    (hop : ∀ a b, T.value a → T.value b → Yields T.value (op a b)) (hfirst : T.value first)
    (hes : ∀ e ∈ es, e ∈ r.parts) : Asking T T.value fun ev => ev.combine op first es :=
  .foldlM (fun _ hacc e he => (hF.evaluate (hes e he)).bind fun _ hv =>
    .ofFault hF.toClosed (hop _ _ hacc hv)) hfirst

theorem comparison {rel : Relation} (hrel : r.relates = some rel) {a b : Value} (ha : T.value a)
    (hb : T.value b) : Asking T T.value fun _ => Eval.ofExcept (a.relate rel b) := by
  cases h : a.relate rel b with
  | error f => exact .throw (hF.relate rel a b f hrel ha hb h)
  | ok v =>
    obtain ⟨holds, rfl⟩ := Value.eq_bool_of_relate h
    exact .pure (hF.bool holds)

theorem operate {op : Operator} {operands : List Expr} {pos : Position}
    (hr : r = .visit (.call (.operator op) operands pos)) :
    Asking T T.value fun ev => ev.operate op operands := by
  have hT := hF.toClosed
  have hpart : ∀ e ∈ operands, e ∈ r.parts := by rw [hr]; exact fun e he => he
  by_cases h : op.arity.accepts operands.length = true
  swap
  · have h : op.arity.accepts operands.length = false := Bool.eq_false_iff.2 h
    simp only [Evaluator.operate_refused _ h]
    exact .throw (hT.fault (.wrongOperands op operands.length) h)
  -- From here on there are as many operands as the operator takes apart.
  cases op with
  | add =>
    obtain ⟨e, es, rfl⟩ := List.exists_cons_of_length_pos (Arity.accepts_atLeast.1 h)
    exact hF.combine (fun _ _ => hT.add) hT.unit hpart
  | subtract =>
    match operands, Arity.accepts_atLeast.1 h, hpart with
    | e :: e' :: es, _, hpart =>
      refine (hF.evaluate (hpart e List.mem_cons_self)).bind fun v hv => ?_
      exact hF.combine (fun a b _ _ => hT.number (a.subtract_yields b)) hv
        fun e he => hpart e (List.mem_cons_of_mem _ he)
  | multiply =>
    exact hF.combine (fun a b _ _ => hT.number (a.multiply_yields b)) (hT.int 1) hpart
  | divide =>
    match operands, Arity.accepts_atLeast.1 h, hpart with
    | e :: e' :: es, _, hpart =>
      refine (hF.evaluate (hpart e List.mem_cons_self)).bind fun v hv => ?_
      exact hF.combine (fun a b _ _ => hT.number (a.divide_yields b)) hv
        fun e he => hpart e (List.mem_cons_of_mem _ he)
  | relation rel =>
    obtain ⟨left, right, rfl⟩ := List.length_eq_two.1 (Arity.accepts_exactly.1 h)
    refine (hF.evaluate (hpart left (by simp))).bind fun a ha => ?_
    refine (hF.evaluate (hpart right (by simp))).bind fun b hb => ?_
    exact hF.comparison (by rw [hr]; rfl) ha hb
  | not =>
    obtain ⟨operand, rfl⟩ := List.length_eq_one_iff.1 (Arity.accepts_exactly.1 h)
    refine (hF.evaluate (hpart operand (by simp))).bind fun v _ => ?_
    refine .ofFault hT (v.negate_yields.mono ?_)
    rintro _ ⟨b, rfl⟩
    exact hT.bool b
  | index =>
    obtain ⟨subject, position, rfl⟩ := List.length_eq_two.1 (Arity.accepts_exactly.1 h)
    refine (hF.evaluate (hpart subject (by simp))).bind fun a ha => ?_
    refine (hF.evaluate (hpart position (by simp))).bind fun b _ => ?_
    exact .ofFault hT (hT.index ha)
  | array =>
    exact (Asking.mapM fun e he => hF.evaluate (hpart e he)).bind fun vs hvs =>
      .pure (hT.array vs hvs)
  | sequence =>
    obtain ⟨e, es, rfl⟩ := List.exists_cons_of_length_pos (Arity.accepts_atLeast.1 h)
    exact .foldlM (fun _ _ e he => hF.evaluate (hpart e he)) hT.unit

theorem callNamed {name : String} {args : List Expr} {pos : Position}
    (hr : r = .visit (.call (.named name) args pos)) :
    Asking T T.value fun ev => ev.callNamed name args := by
  intro m hm
  have hT := hF.toClosed
  simp only [Evaluator.callNamed_apply]
  refine (?_ : Asking T T.value fun ev => ev.invokeNamed name args (m.scope.value? name)) m hm
  cases hv : m.scope.value? name with
  | none => exact .throw (hT.fault (.noFunction name) trivial)
  | some v =>
    have hvalue : T.value v := hF.lookup name m v (by rw [hr]; rfl) hm hv
    simp only [Evaluator.invokeNamed]
    cases hcallee : v.callable? with
    | none => exact .throw (hT.fault (.notCallable name) trivial)
    | some callee =>
      refine (Asking.checkCount hT _ _ _).bind fun _ _ => ?_
      have hpart : ∀ e ∈ args, Asking T T.value fun ev => ev.evaluate e :=
        fun e he => hF.evaluate (by rw [hr]; exact he)
      refine (Asking.mapM hpart).bind fun vs hvs => ?_
      exact hF.callNext (by rw [hr]; rfl) (hT.callable v callee hvalue hcallee) hvs

/-! ## Forms -/

/-- A declaration of a name that the frame holds fails by itself. -/
theorem held {rounds : Nat} {e : Expr} {m : Machine} {x : String} (he : e.declares? = some x)
    (hx : (valueAt m.scope.frames m.scope.home x).isSome) (hm : T.machine m) :
    Dialogue T T.value fun ev => ev.visitNext rounds e m := by
  simp only [Evaluator.visitNext_declares_held he hx]
  exact .error (hF.fault (.redeclared x) trivial) hm

/-- A form that stores a value asks for that value alone. -/
theorem stores {rounds : Nat} {e c : Expr} {m s : Machine} {hops : Nat} {x : String}
    (hr : r = .visit e) (h : m.Stores e c s hops x) (hm : T.machine m) :
    Dialogue T T.value fun ev => ev.visitNext rounds e m := by
  have hT := hF.toClosed
  have hs : T.machine s := by
    cases h with
    | assign => exact hm
    | declareAs => exact hT.bind m _ _ _ hm hT.unit
  have hstoring : Asking T T.value fun ev => ev.storing hops x c := by
    refine (hF.evaluate (by rw [hr]; exact h.mem_children)).bind fun v hv n hn => ?_
    exact .ok hT.unit (hT.set n hops x v hn hv)
  simp only [Evaluator.visitNext_of_stores _ rounds h]
  exact hstoring s hs

theorem visitNext {rounds : Nat} {e : Expr} (hr : r = .visit e) :
    Asking T T.value fun ev => ev.visitNext rounds e := by
  have hT := hF.toClosed
  have hpart : ∀ c ∈ e.children, c ∈ r.parts := by rw [hr]; exact fun c hc => hc
  cases e with
  | literal l pos => exact .pure (hT.literal l)
  | name x pos =>
    exact .lookup hT fun m v hm hv => hF.lookup x m v (by rw [hr]; rfl) hm hv
  | unit pos => exact .pure hT.unit
  | call callee args pos =>
    cases callee with
    | operator op => exact hF.operate hr
    | named name => exact hF.callNamed hr
  | function params body pos => exact .pure (hF.function params body pos hr)
  | ifThen cond yes pos =>
    refine (hF.test (hpart cond (by simp [Expr.children]))).bind fun holds _ => ?_
    cases holds with
    | true => exact hF.evaluate (hpart yes (by simp [Expr.children]))
    | false => exact .pure hT.unit
  | ifThenElse cond yes no pos =>
    refine (hF.test (hpart cond (by simp [Expr.children]))).bind fun holds _ => ?_
    cases holds with
    | true => exact hF.evaluate (hpart yes (by simp [Expr.children]))
    | false => exact hF.evaluate (hpart no (by simp [Expr.children]))
  | declare x pos =>
    intro m hm
    cases hx : valueAt m.scope.frames m.scope.home x with
    | some v => exact hF.held rfl (Option.isSome_of_eq_some hx) hm
    | none =>
      simp only [Evaluator.visitNext_declare hx]
      exact .ok hT.unit (hT.bind m _ _ _ hm hT.unit)
  | declareAs x init pos =>
    intro m hm
    cases hx : valueAt m.scope.frames m.scope.home x with
    | some v => exact hF.held rfl (Option.isSome_of_eq_some hx) hm
    | none => exact hF.stores hr (.declareAs hx) hm
  | assign x value pos =>
    intro m hm
    cases hx : m.scope.assignable m.scope.home x with
    | error f =>
      simp only [Evaluator.visitNext_assign_refused _ rounds value pos hx]
      exact .error (hT.fault f (Scope.assignable_genuine hx)) hm
    | ok hops => exact hF.stores hr (.assign hx) hm
  | whileLoop cond body pos =>
    refine (Asking.repeatWhile hT.exhausted (hF.test (hpart cond (by simp [Expr.children]))) ?_
      rounds).bind fun _ _ => .pure hT.unit
    exact (hF.evaluate (hpart body (by simp [Expr.children]))).discard
  | forLoop init cond post body pos =>
    refine (hF.evaluate (hpart init (by simp [Expr.children]))).discard.bind fun _ _ => ?_
    have hholds : Asking T (fun _ => True) fun ev =>
        if Evaluator.isEmptyCondition cond then return true else ev.test cond := by
      split
      · exact .pure trivial
      · exact hF.test (hpart cond (by simp [Expr.children]))
    have hturn : Asking T (fun _ => True) fun ev =>
        (do discard <| ev.evaluate body; discard <| ev.evaluate post) :=
      (hF.evaluate (hpart body (by simp [Expr.children]))).discard.bind fun _ _ =>
        (hF.evaluate (hpart post (by simp [Expr.children]))).discard
    exact (Asking.repeatWhile hT.exhausted hholds hturn rounds).bind fun _ _ => .pure hT.unit

end Terms.Fair

/-- One level of nesting keeps to terms that are fair to the request it answers. -/
theorem Evaluator.next_dialogue {T : Terms} {r : Request} (hF : T.Fair r) (rounds : Nat) {m : Machine}
    (hm : T.machine m) : Dialogue T T.value fun ev => (ev.next rounds).answer r m := by
  cases r with
  | visit e => exact hF.visitNext rfl m hm
  | call callee args =>
    obtain ⟨hcallee, hargs⟩ := hF.given callee args rfl
    exact hF.callNext rfl hcallee hargs m hm

end SmallLisp
