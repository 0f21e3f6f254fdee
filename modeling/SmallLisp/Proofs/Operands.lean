import SmallLisp.Proofs.Forms

/-!
# Operands in turn

An operator of any number of operands evaluates them in turn and combines the value of each with
what those before it have come to. As long as the values combine, the operator goes on with the next
operand (`Evaluator.combine_append`). At the first one that does not, it is done, and the operands
behind are not evaluated: whatever they are, the outcome is the same, on the machine that the last
one evaluated has left (`Evaluator.combine_stops`).

What combines and what does not is a matter of the operation (`Value.Selects`): one statement about
a single step yields the first operand at which an operator fails (`Evaluator.Begins.failsAtFirst`).
-/

set_option autoImplicit false

namespace SmallLisp

/-! ## Operations on values -/

namespace Value

/-- The value is one to compute with. -/
def IsNumber (v : Value) : Prop := v.kind = .int ∨ v.kind = .bool

instance (v : Value) : Decidable v.IsNumber := inferInstanceAs (Decidable (_ ∨ _))

/-- The integer that a value counts for: a boolean for one or zero, a character for its code point.
-/
def worth : Value → Int
  | int n _ => n
  | bool b _ => bit b
  | char c _ => c.toNat
  | _ => 0

theorem isNumber_int (n : Int) : (int n).IsNumber := .inl rfl

/-- What an operation does with an operand: one of a sort combines with what the operation has come
to, and the operation goes on; any other is a fault, of a kind that the operand calls for. -/
structure Selects (op : Value → Value → Except Fault Value) (going : Value → Prop)
    (P : Value → Prop) (kind : Value → FaultKind) : Prop where
  next {acc v : Value} (hacc : going acc) (hv : P v) : ∃ w, op acc v = .ok w ∧ going w
  stop {acc v : Value} (hacc : going acc) (hv : ¬ P v) : ∃ f, f.kind = kind v ∧ op acc v = .error f

variable {op : Value → Value → Except Fault Value} {going P : Value → Prop}
  {kind : Value → FaultKind}

theorem Selects.foldlM (hop : Selects op going P kind) {first : Value} (hfirst : going first)
    {vs : List Value} (hvs : ∀ v ∈ vs, P v) : ∃ acc, vs.foldlM op first = .ok acc ∧ going acc := by
  induction vs generalizing first with
  | nil => exact ⟨first, rfl, hfirst⟩
  | cons v vs ih =>
    obtain ⟨w, hw, hgoing⟩ := hop.next hfirst (hvs v List.mem_cons_self)
    rw [List.foldlM_cons, hw]
    exact ih hgoing fun u hu => hvs u (List.mem_cons_of_mem _ hu)

/-- The same selection, with the sort and the kinds of faults in other words. -/
theorem Selects.congr (hop : Selects op going P kind) {Q : Value → Prop} {kind' : Value → FaultKind}
    (hPQ : ∀ v, P v ↔ Q v) (hkind : ∀ v, ¬ Q v → kind v = kind' v) : Selects op going Q kind' where
  next hacc hv := hop.next hacc ((hPQ _).2 hv)
  stop {_ v} hacc hv := hkind v hv ▸ hop.stop hacc (mt (hPQ v).1 hv)

end Value

/-! ## Operands that combine -/

namespace Evaluator

variable {lower : Evaluator} {op : Value → Value → Except Fault Value} {es : List Expr}
  {vs ws : List Value} {first acc v : Value} {f : Fault} {m n : Machine}

theorem combine_cons (op : Value → Value → Except Fault Value) (first : Value) (e : Expr)
    (es : List Expr) : lower.combine op first (e :: es) =
      lower.evaluate e >>= fun v => Eval.ofFault (op first v) >>= fun acc =>
        lower.combine op acc es := by
  rw [combine, List.foldlM_cons, bind_assoc]
  rfl

theorem combine_cons_ok {e : Expr} {p : Machine} (he : lower.evaluate e m = .ok v p)
    (hv : op first v = .ok acc) (es : List Expr) :
    lower.combine op first (e :: es) m = lower.combine op acc es p := by
  rw [combine_cons, Eval.bind_ok he, hv]
  rfl

theorem combine_cons_error {e : Expr} {p : Machine} (he : lower.evaluate e m = .ok v p)
    (hv : op first v = .error f) (es : List Expr) :
    lower.combine op first (e :: es) m = .error (.ofFault f) p := by
  rw [combine_cons, Eval.bind_ok he, hv]
  rfl

/-- Behind operands that combine, an operator goes on from what they have come to. -/
theorem combine_append (h : es.mapM lower.evaluate m = .ok vs n)
    (hacc : vs.foldlM op first = .ok acc) (after : List Expr) :
    lower.combine op first (es ++ after) m = lower.combine op acc after n := by
  induction es generalizing vs first m with
  | nil =>
    cases h
    cases hacc
    rfl
  | cons e es ih =>
    obtain ⟨v, vs, p, rfl, he, hes⟩ := Eval.exists_of_mapM_cons_ok h
    rw [List.foldlM_cons] at hacc
    cases hv : op first v with
    | error f =>
      rw [hv] at hacc
      cases hacc
    | ok next =>
      rw [hv] at hacc
      rw [List.cons_append, combine_cons_ok he hv]
      exact ih hes hacc

theorem combine_ok (h : es.mapM lower.evaluate m = .ok vs n)
    (hacc : vs.foldlM op first = .ok acc) : lower.combine op first es m = .ok acc n := by
  have happend := combine_append h hacc []
  rwa [List.append_nil] at happend

/-- An operator is done at the first operand that does not combine with what those before it have
come to. -/
theorem combine_stops {e : Expr} {p : Machine} (h : es.mapM lower.evaluate m = .ok vs p)
    (hacc : vs.foldlM op first = .ok acc) (he : lower.evaluate e p = .ok v n)
    (hf : op acc v = .error f) (after : List Expr) :
    lower.combine op first (es ++ e :: after) m = .error (.ofFault f) n := by
  rw [combine_append h hacc, combine_cons_error he hf]

/-- Of operands that are not all of a sort there is a first one that is not. -/
theorem exists_first_operand {P : Value → Prop} (h : es.mapM lower.evaluate m = .ok (ws ++ vs) n)
    (hP : ∃ v ∈ vs, ¬ P v) :
    ∃ before e after us v p q, es = before ++ e :: after ∧
      before.mapM lower.evaluate m = .ok (ws ++ us) p ∧ lower.evaluate e p = .ok v q ∧
      (∀ u ∈ us, P u) ∧ ¬ P v := by
  classical
  obtain ⟨w, hw, hPw⟩ := hP
  have hsome : (vs.find? fun v => ¬ P v).isSome := List.find?_isSome.2 ⟨w, hw, by simpa using hPw⟩
  obtain ⟨v, hv⟩ := Option.isSome_iff_exists.1 hsome
  obtain ⟨hPv, us, later, rfl, hus⟩ := List.find?_eq_some_iff_append.1 hv
  rw [← List.append_assoc] at h
  obtain ⟨before, rest, p, rfl, hbefore, hrest⟩ := Eval.exists_of_mapM_append_ok h
  cases rest with
  | nil => cases hrest
  | cons e after =>
    obtain ⟨w, ws, q, hws, he, -⟩ := Eval.exists_of_mapM_cons_ok hrest
    cases hws
    exact ⟨before, e, after, us, v, p, q, rfl, hbefore, he, by simpa using hus, by simpa using hPv⟩

/-! ## Operators that combine operands -/

/-- Behind operands that come to these values, the operator combines those that follow, from a first
value on. -/
def Begins (lower : Evaluator) (o : Operator) (ws : List Value)
    (op : Value → Value → Except Fault Value) (first : Value) : Prop :=
  ∀ before after m p, before.mapM lower.evaluate m = .ok ws p → after ≠ [] →
    lower.operate o (before ++ after) m = lower.combine op first after p

/-- Of the operands behind those that come to these values, there is a first one whose value is not
of a sort, and the operator fails there, with a fault of the kind that this value calls for. It does
so whatever operands are behind: they are not evaluated. -/
def FailsAtFirst (lower : Evaluator) (o : Operator) (es : List Expr) (ws : List Value)
    (P : Value → Prop) (kind : Value → FaultKind) (m : Machine) : Prop :=
  ∃ before e after us v p q, es = before ++ e :: after ∧
    before.mapM lower.evaluate m = .ok (ws ++ us) p ∧ lower.evaluate e p = .ok v q ∧
    (∀ u ∈ us, P u) ∧ ¬ P v ∧
    ∃ f, f.kind = kind v ∧ ∀ after, lower.operate o (before ++ e :: after) m = .error (.ofFault f) q

namespace Begins

variable {o : Operator} (ho : lower.Begins o ws op first)

include ho

theorem operate_ok (h : es.mapM lower.evaluate m = .ok (ws ++ vs) n) (hvs : vs ≠ [])
    (hacc : vs.foldlM op first = .ok acc) : lower.operate o es m = .ok acc n := by
  obtain ⟨before, after, p, rfl, hbefore, hafter⟩ := Eval.exists_of_mapM_append_ok h
  have hne : after ≠ [] := by
    rintro rfl
    cases hafter
    exact hvs rfl
  rw [ho _ _ _ _ hbefore hne, combine_ok hafter hacc]

theorem failsAtFirst {going P : Value → Prop} {kind : Value → FaultKind}
    (hop : Value.Selects op going P kind) (hfirst : going first)
    (h : es.mapM lower.evaluate m = .ok (ws ++ vs) n) (hP : ∃ v ∈ vs, ¬ P v) :
    lower.FailsAtFirst o es ws P kind m := by
  obtain ⟨before, e, after, us, v, p, q, rfl, hbefore, he, hus, hv⟩ := exists_first_operand h hP
  obtain ⟨acc, hacc, hgoing⟩ := hop.foldlM hfirst hus
  obtain ⟨f, hf, hstop⟩ := hop.stop hgoing hv
  refine ⟨before, e, after, us, v, p, q, rfl, hbefore, he, hus, hv, f, hf, fun after => ?_⟩
  obtain ⟨es₁, es₂, r, rfl, h₁, h₂⟩ := Eval.exists_of_mapM_append_ok hbefore
  rw [List.append_assoc, ho _ _ _ _ h₁ (by simp), combine_stops h₂ hacc he hstop]

end Begins

end Evaluator

end SmallLisp
