import Mathlib.Algebra.BigOperators.Group.List.Basic
import Mathlib.Algebra.Ring.Int.Defs
import SmallLisp.Proofs.Operands

/-!
# Differences, products and quotients of any number of operands

Subtraction, multiplication and division compute with numbers alone, and division with a divisor
that is not zero (`Value.numeric`). So each of them folds the integers that its operands count for
(`Value.foldlM_numeric`), and fails at the first step that has no result
(`Value.selects_numeric`). Dividing by one integer after another is dividing by their product
(`tdiv_tdiv`), whatever the signs. Main statement: `Evaluator.operate_arithmetic`.
-/

set_option autoImplicit false

namespace SmallLisp

/-! ## Integers -/

theorem tdiv_tdiv (a b c : Int) : (a.tdiv b).tdiv c = a.tdiv (b * c) := by
  -- one case for each combination of signs; what is left of each is a division of natural numbers
  obtain ⟨a, rfl | rfl⟩ := a.eq_nat_or_neg <;> obtain ⟨b, rfl | rfl⟩ := b.eq_nat_or_neg <;>
    obtain ⟨c, rfl | rfl⟩ := c.eq_nat_or_neg <;>
    simp only [Int.neg_tdiv, Int.tdiv_neg, Int.neg_mul, Int.mul_neg, Int.neg_neg, ← Int.ofNat_tdiv,
      ← Int.natCast_mul, Nat.div_div_eq_div_mul]

theorem foldl_sub (a : Int) (bs : List Int) : bs.foldl (· - ·) a = a - bs.sum := by
  induction bs generalizing a with
  | nil => simp
  | cons b bs ih => rw [List.foldl_cons, ih, List.sum_cons, Int.sub_sub]

theorem foldl_tdiv (a : Int) (bs : List Int) : bs.foldl Int.tdiv a = a.tdiv bs.prod := by
  induction bs generalizing a with
  | nil => simp
  | cons b bs ih => rw [List.foldl_cons, ih, List.prod_cons, tdiv_tdiv]

/-- The remainder of a division that truncates toward zero is smaller than the divisor, and has the
sign of the dividend unless it is zero. -/
theorem tmod_bounds (a : Int) {b : Int} (hb : b ≠ 0) :
    (a.tmod b).natAbs < b.natAbs ∧ (a.tmod b = 0 ∨ (a.tmod b).sign = a.sign) := by
  refine ⟨?_, ?_⟩
  · rw [Int.natAbs_tmod]
    exact Nat.mod_lt _ (Int.natAbs_pos.2 hb)
  · rw [Int.sign_tmod]
    split
    case isTrue hdvd => exact .inl (Int.tmod_eq_zero_of_dvd hdvd)
    case isFalse => exact .inr rfl

/-! ## Operations on numbers -/

namespace Value

variable {a b first v : Value} {left right : String}

theorem IsNumber.number (h : v.IsNumber) (operation : String) :
    v.number operation = .ok v.worth := by
  cases v <;> first | rfl | simp [IsNumber, kind] at h

theorem number_of_not_isNumber (h : ¬ v.IsNumber) (operation : String) :
    v.number operation = .error (.notNumber operation v.kind) := by
  cases v <;> first | rfl | simp [IsNumber, kind] at h

/-- Computes with the numbers that two values stand for, wherever the computation is defined. -/
def numeric (left right : String) (f : Int → Int → Int) (defined : Int → Prop)
    [DecidablePred defined] (a b : Value) : Except Fault Value := do
  let m ← a.number left
  let n ← b.number right
  if defined n then .ok (int (f m n)) else .error .divisionByZero

theorem subtract_eq : subtract = numeric "subtract from" "subtract" (· - ·) fun _ => True := rfl

theorem multiply_eq : multiply = numeric "multiply" "multiply by" (· * ·) fun _ => True := rfl

theorem divide_eq : divide = numeric "divide" "divide by" Int.tdiv (· ≠ 0) := by
  funext a b
  simp only [divide, numeric, ite_not]

section

variable {f : Int → Int → Int} {defined : Int → Prop} [DecidablePred defined]

theorem numeric_ok (ha : a.IsNumber) (hb : b.IsNumber) (hdefined : defined b.worth) :
    numeric left right f defined a b = .ok (int (f a.worth b.worth)) := by
  rw [numeric, ha.number, hb.number]
  exact if_pos hdefined

theorem numeric_undefined (ha : a.IsNumber) (hb : b.IsNumber) (hdefined : ¬ defined b.worth) :
    numeric left right f defined a b = .error .divisionByZero := by
  rw [numeric, ha.number, hb.number]
  exact if_neg hdefined

theorem numeric_mismatch (h : ¬ (a.IsNumber ∧ b.IsNumber)) :
    ∃ g, g.kind = .typeMismatch ∧ numeric left right f defined a b = .error g := by
  by_cases ha : a.IsNumber
  · refine ⟨.notNumber right b.kind, rfl, ?_⟩
    rw [numeric, ha.number, number_of_not_isNumber fun hb => h ⟨ha, hb⟩]
    rfl
  · refine ⟨.notNumber left a.kind, rfl, ?_⟩
    rw [numeric, number_of_not_isNumber ha]
    rfl

/-- An operation on numbers goes on as long as there are numbers and it is defined. What it goes on
with is a number just as what it began with. -/
theorem selects_numeric (first : Value) :
    Selects (numeric left right f defined) (fun acc => acc.IsNumber ↔ first.IsNumber)
      (fun v => first.IsNumber ∧ v.IsNumber ∧ defined v.worth)
      fun v => if first.IsNumber ∧ v.IsNumber then .divisionByZero else .typeMismatch where
  next := fun hacc ⟨hfirst, hv, hdefined⟩ =>
    ⟨_, numeric_ok (hacc.2 hfirst) hv hdefined, iff_of_true (isNumber_int _) hfirst⟩
  stop := fun {acc v} hacc hv => by
    by_cases hnumbers : first.IsNumber ∧ v.IsNumber
    · rw [if_pos hnumbers]
      exact ⟨.divisionByZero, rfl, numeric_undefined (hacc.2 hnumbers.1) hnumbers.2
        fun hdefined => hv ⟨hnumbers.1, hnumbers.2, hdefined⟩⟩
    · rw [if_neg hnumbers]
      exact numeric_mismatch fun h => hnumbers ⟨hacc.1 h.1, h.2⟩

theorem foldlM_numeric (hfirst : first.IsNumber) {v : Value} {vs : List Value}
    (h : ∀ w ∈ v :: vs, w.IsNumber ∧ defined w.worth) :
    (v :: vs).foldlM (numeric left right f defined) first =
      .ok (int (((v :: vs).map worth).foldl f first.worth)) := by
  induction vs generalizing first v with
  | nil =>
    obtain ⟨hv, hdefined⟩ := h v List.mem_cons_self
    rw [List.foldlM_cons, numeric_ok hfirst hv hdefined]
    rfl
  | cons w vs ih =>
    obtain ⟨hv, hdefined⟩ := h v List.mem_cons_self
    rw [List.foldlM_cons, numeric_ok hfirst hv hdefined]
    exact ih (isNumber_int _) fun u hu => h u (List.mem_cons_of_mem _ hu)

end

theorem selects_subtract (first : Value) :
    Selects subtract (fun acc => acc.IsNumber ↔ first.IsNumber)
      (fun v => first.IsNumber ∧ v.IsNumber) fun _ => .typeMismatch := by
  rw [subtract_eq]
  exact (selects_numeric first).congr (fun _ => by rw [and_true]) fun _ hv => if_neg hv

theorem selects_multiply :
    Selects multiply (fun acc => acc.IsNumber ↔ (int 1).IsNumber) IsNumber
      fun _ => .typeMismatch := by
  rw [multiply_eq]
  exact (selects_numeric (int 1)).congr
    (fun _ => by rw [and_true, and_iff_right (isNumber_int 1)]) fun _ hv => if_neg (mt And.right hv)

theorem selects_divide (first : Value) :
    Selects divide (fun acc => acc.IsNumber ↔ first.IsNumber)
      (fun v => first.IsNumber ∧ v.IsNumber ∧ v.worth ≠ 0)
      fun v => if first.IsNumber ∧ v.IsNumber then .divisionByZero else .typeMismatch := by
  rw [divide_eq]
  exact selects_numeric first

/-- If the first of some operands is not right or not all of the others are, then it is not right
together with one of them. -/
theorem exists_not_and {A : Prop} {P : Value → Prop} {vs : List Value} (hne : vs ≠ [])
    (h : ¬ (A ∧ ∀ v ∈ vs, P v)) : ∃ v ∈ vs, ¬ (A ∧ P v) := by
  by_contra hall
  have hboth : ∀ v ∈ vs, A ∧ P v := fun v hv => not_not.1 fun hnot => hall ⟨v, hv, hnot⟩
  obtain ⟨v, hv⟩ := List.exists_mem_of_ne_nil vs hne
  exact h ⟨(hboth v hv).1, fun w hw => (hboth w hw).2⟩

theorem foldlM_subtract (hfirst : first.IsNumber) {vs : List Value} (hne : vs ≠ [])
    (h : ∀ v ∈ vs, v.IsNumber) :
    vs.foldlM subtract first = .ok (int (first.worth - (vs.map worth).sum)) := by
  obtain ⟨v, vs, rfl⟩ := List.exists_cons_of_ne_nil hne
  rw [subtract_eq, foldlM_numeric hfirst fun w hw => ⟨h w hw, trivial⟩, foldl_sub]

theorem foldlM_divide (hfirst : first.IsNumber) {vs : List Value} (hne : vs ≠ [])
    (h : ∀ v ∈ vs, v.IsNumber ∧ v.worth ≠ 0) :
    vs.foldlM divide first = .ok (int (first.worth.tdiv (vs.map worth).prod)) := by
  obtain ⟨v, vs, rfl⟩ := List.exists_cons_of_ne_nil hne
  rw [divide_eq, foldlM_numeric hfirst h, foldl_tdiv]

theorem foldlM_multiply {vs : List Value} (h : ∀ v ∈ vs, v.IsNumber) :
    vs.foldlM multiply (int 1) = .ok (int (vs.map worth).prod) := by
  cases vs with
  | nil => rfl
  | cons v vs =>
    rw [multiply_eq, foldlM_numeric (isNumber_int 1) fun w hw => ⟨h w hw, trivial⟩,
      List.prod_eq_foldl]
    rfl

end Value

namespace Evaluator

open Value

variable {lower : Evaluator} {es : List Expr} {vs : List Value} {m n : Machine}

theorem begins_multiply (lower : Evaluator) : lower.Begins .multiply [] multiply (.int 1) := by
  intro before after m p hbefore hafter
  exact combine_append hbefore rfl after

/-- Behind its first operand, an operator that needs two begins with the value of this one. -/
theorem begins_first {o : Operator} {op : Value → Value → Except Fault Value}
    (ho : ∀ e es, es ≠ [] → lower.operate o (e :: es) =
      lower.evaluate e >>= fun first => lower.combine op first es) (first : Value) :
    lower.Begins o [first] op first := by
  intro before after m p hbefore hafter
  cases before with
  | nil => cases hbefore
  | cons e before =>
    obtain ⟨v, vs, q, hvs, he, hrest⟩ := Eval.exists_of_mapM_cons_ok hbefore
    cases hvs
    rw [List.cons_append, ho e _ (by simp [hafter]), Eval.bind_ok he]
    exact combine_append hrest rfl after

theorem begins_subtract (lower : Evaluator) (first : Value) :
    lower.Begins .subtract [first] subtract first := by
  refine begins_first (fun e es hes => ?_) first
  obtain ⟨e', es, rfl⟩ := List.exists_cons_of_ne_nil hes
  rfl

theorem begins_divide (lower : Evaluator) (first : Value) :
    lower.Begins .divide [first] divide first := by
  refine begins_first (fun e es hes => ?_) first
  obtain ⟨e', es, rfl⟩ := List.exists_cons_of_ne_nil hes
  rfl

/-- What differences, products and quotients of numbers come to, and where an operator fails that
has operands without a result. A quotient by several divisors is the one by their product, in
whatever order they are divided by; each division leaves a remainder that is smaller than the
divisor and has the sign of the dividend. An operator fails at the first step without a result: one
from or to a value that is no number, or by a zero. -/
theorem operate_arithmetic (h : es.mapM lower.evaluate m = .ok vs n) :
    ((∀ v ∈ vs, v.IsNumber) → lower.operate .multiply es m = .ok (.int (vs.map worth).prod) n) ∧
    ((∃ v ∈ vs, ¬ v.IsNumber) →
      lower.FailsAtFirst .multiply es [] IsNumber (fun _ => .typeMismatch) m) ∧
    (∀ a bs, vs = a :: bs → bs ≠ [] →
      (a.IsNumber → (∀ b ∈ bs, b.IsNumber) →
        lower.operate .subtract es m = .ok (.int (a.worth - (bs.map worth).sum)) n) ∧
      (¬ (a.IsNumber ∧ ∀ b ∈ bs, b.IsNumber) →
        lower.FailsAtFirst .subtract es [a] (fun b => a.IsNumber ∧ b.IsNumber)
          (fun _ => .typeMismatch) m) ∧
      (a.IsNumber → (∀ b ∈ bs, b.IsNumber ∧ b.worth ≠ 0) →
        lower.operate .divide es m = .ok (.int (a.worth.tdiv (bs.map worth).prod)) n ∧
        ∀ es' bs' m' n', bs'.Perm bs → es'.mapM lower.evaluate m' = .ok (a :: bs') n' →
          lower.operate .divide es' m' = .ok (.int (a.worth.tdiv (bs.map worth).prod)) n') ∧
      (¬ (a.IsNumber ∧ ∀ b ∈ bs, b.IsNumber ∧ b.worth ≠ 0) →
        lower.FailsAtFirst .divide es [a] (fun b => a.IsNumber ∧ b.IsNumber ∧ b.worth ≠ 0)
          (fun b => if a.IsNumber ∧ b.IsNumber then .divisionByZero else .typeMismatch) m)) ∧
    ∀ a b : Value, a.IsNumber → b.IsNumber → b.worth ≠ 0 →
      ∃ q r, a.divide b = .ok (.int q) ∧ a.worth = q * b.worth + r ∧
        r.natAbs < b.worth.natAbs ∧ (r = 0 ∨ r.sign = a.worth.sign) := by
  refine ⟨fun hvs => combine_ok h (foldlM_multiply hvs), fun hvs => ?_,
    fun a bs hab hbs => ⟨fun ha hnumbers => ?_, fun hnot => ?_, fun ha hdivisors => ?_,
      fun hnot => ?_⟩,
    fun a b ha hb hzero => ?_⟩
  · -- a product with a factor that is no number
    exact (begins_multiply lower).failsAtFirst selects_multiply .rfl h hvs
  · -- a difference
    subst hab
    exact (begins_subtract lower a).operate_ok h hbs (foldlM_subtract ha hbs hnumbers)
  · -- a difference of what are not all numbers
    subst hab
    exact (begins_subtract lower a).failsAtFirst (selects_subtract a) .rfl h
      (exists_not_and hbs hnot)
  · -- a quotient, and one by the same divisors in another order
    subst hab
    refine ⟨(begins_divide lower a).operate_ok h hbs (foldlM_divide ha hbs hdivisors),
      fun es' bs' m' n' hperm h' => ?_⟩
    have hbs' : bs' ≠ [] := fun hnil => hbs (List.nil_perm.1 (hnil ▸ hperm))
    rw [← (hperm.map worth).prod_eq]
    exact (begins_divide lower a).operate_ok h' hbs'
      (foldlM_divide ha hbs' fun b hb => hdivisors b (hperm.mem_iff.1 hb))
  · -- a quotient of what are not all numbers, or by a zero
    subst hab
    exact (begins_divide lower a).failsAtFirst (selects_divide a) .rfl h (exists_not_and hbs hnot)
  · -- a single division
    refine ⟨a.worth.tdiv b.worth, a.worth.tmod b.worth, ?_, ?_, tmod_bounds a.worth hzero⟩
    · rw [divide_eq, numeric_ok ha hb hzero]
    · have hdiv := Int.tmod_add_mul_tdiv a.worth b.worth
      rw [Int.mul_comm] at hdiv
      omega

/-- A boolean counts for one; a zero ends a division before a text behind it could. -/
theorem operate_arithmetic_minus_seven :
    let m : Machine := ⟨.root .empty, .reading []⟩
    let seven : Expr := .literal (.int (-7)) .start
    let es : List Expr := [seven, .literal (.bool true) .start, .literal (.int 2) .start]
    let zero : List Expr := [seven, .literal (.int 0) .start, .literal (.string "2") .start]
    (ofDepth 1 1).operate .subtract es m = .ok (.int (-10)) m ∧
    (ofDepth 1 1).operate .multiply es m = .ok (.int (-14)) m ∧
    (ofDepth 1 1).operate .divide es m = .ok (.int (-3)) m ∧
    (∃ q r, divide (.int (-7)) (.int 2) = .ok (.int q) ∧ -7 = q * 2 + r ∧ r.natAbs < 2 ∧
      (r = 0 ∨ r.sign = -1)) ∧
    (ofDepth 1 1).FailsAtFirst .divide zero [.int (-7)]
      (fun b => (int (-7)).IsNumber ∧ b.IsNumber ∧ b.worth ≠ 0)
      (fun b => if (int (-7)).IsNumber ∧ b.IsNumber then .divisionByZero else .typeMismatch) m ∧
    (ofDepth 1 1).FailsAtFirst .multiply zero [] IsNumber (fun _ => .typeMismatch) m := by
  intro m seven es zero
  have hes : es.mapM (ofDepth 1 1).evaluate m = .ok [.int (-7), .bool true, .int 2] m := rfl
  have hzero : zero.mapM (ofDepth 1 1).evaluate m =
      .ok [.int (-7), .int 0, .string (Text.ofString "2")] m := rfl
  obtain ⟨hmultiply, -, hcases, hdivision⟩ := operate_arithmetic hes
  obtain ⟨hsubtract, -, hdivide, -⟩ := hcases _ _ rfl (by simp)
  obtain ⟨-, hfactor, hfails, -⟩ := operate_arithmetic hzero
  obtain ⟨-, -, -, hdivisor⟩ := hfails _ _ rfl (by simp)
  refine ⟨hsubtract (by decide) (by decide), hmultiply (by decide),
    (hdivide (by decide) (by decide)).1,
    hdivision (.int (-7)) (.int 2) (by decide) (by decide) (by decide),
    hdivisor (by simp [worth]), hfactor ⟨.string (Text.ofString "2"), by simp, by decide⟩⟩

end Evaluator

end SmallLisp
