import Mathlib.Algebra.BigOperators.Group.List.Basic
import Mathlib.Algebra.Ring.Int.Defs
import SmallLisp.Proofs.Operands

/-!
# Sums of any number of operands

A sum begins with its first operand that is no unit (`Evaluator.begins_add`). What comes behind
either fits on to this one, and then the whole is a text or a number again, or it does not, and the
sum is done. Whether an operand fits depends on the beginning only and not on what has been added up
since (`Value.fits_plus`): this is what carries the fold over any number of operands
(`Value.selects_add`). Main statement: `Evaluator.operate_add`.
-/

set_option autoImplicit false

namespace SmallLisp

namespace Value

/-- The operand can be added to a sum that begins with the value: a text takes everything, a number
takes numbers and characters. -/
def FitsOnto (v first : Value) : Prop :=
  first.kind = .string ∨ first.IsNumber ∧ (v.IsNumber ∨ v.kind = .char)

/-- What a sum is once an operand that fits is added. -/
def plus (sum v : Value) : Value :=
  match sum with
  | string t _ => string (t ++ v.render)
  | sum => int (sum.worth + v.worth)

variable {first sum v : Value} {vs : List Value}

theorem add_of_fits (h : v.FitsOnto sum) : sum.add v = .ok (sum.plus v) := by
  cases sum with
  | string t i => rfl
  | int n i => cases v <;> first | rfl | simp [FitsOnto, IsNumber, kind] at h
  | bool b i => cases v <;> first | rfl | simp [FitsOnto, IsNumber, kind] at h
  | _ => simp [FitsOnto, IsNumber, kind] at h

theorem add_of_not_fits (hsum : sum.kind ≠ .unit) (h : ¬ v.FitsOnto sum) :
    sum.add v = .error (.notAddable v.kind sum.kind) := by
  cases sum with
  | unit i => exact absurd rfl hsum
  | string t i => exact absurd (.inl rfl) h
  | int n i => cases v <;> first | rfl | simp [FitsOnto, IsNumber, kind] at h
  | bool b i => cases v <;> first | rfl | simp [FitsOnto, IsNumber, kind] at h
  | _ => rfl

theorem plus_kind_ne_unit (sum v : Value) : (sum.plus v).kind ≠ .unit := by
  cases sum <;> simp [plus, kind]

/-- What has been added since does not change what fits. -/
theorem fits_plus (h : v.FitsOnto sum) (w : Value) : w.FitsOnto (sum.plus v) ↔ w.FitsOnto sum := by
  cases sum <;> simp [FitsOnto, IsNumber, kind, plus] at h ⊢

/-- A sum goes on with what fits on to its beginning. -/
theorem selects_add (first : Value) :
    Selects add (fun sum => sum.kind ≠ .unit ∧ ∀ v, FitsOnto v sum ↔ v.FitsOnto first)
      (·.FitsOnto first) fun _ => .typeMismatch where
  next := fun {sum v} ⟨_, hfits⟩ hv =>
    have hsum : v.FitsOnto sum := (hfits v).2 hv
    ⟨sum.plus v, add_of_fits hsum, plus_kind_ne_unit sum v,
      fun w => (fits_plus hsum w).trans (hfits w)⟩
  stop := fun {sum v} ⟨hsum, hfits⟩ hv =>
    ⟨.notAddable v.kind sum.kind, rfl, add_of_not_fits hsum fun h => hv ((hfits v).1 h)⟩

theorem foldlM_add (h : ∀ v ∈ vs, v.FitsOnto first) :
    vs.foldlM add first = .ok (vs.foldl plus first) := by
  induction vs generalizing first with
  | nil => rfl
  | cons v vs ih =>
    have hv : v.FitsOnto first := h v List.mem_cons_self
    rw [List.foldlM_cons, add_of_fits hv]
    exact ih fun w hw => (fits_plus hv w).2 (h w (List.mem_cons_of_mem _ hw))

theorem foldl_plus_string (t : Text) (i : Bool) (v : Value) (vs : List Value) :
    (v :: vs).foldl plus (string t i) = string (t ++ (v :: vs).flatMap render) := by
  induction vs generalizing t i v with
  | nil => simp [plus]
  | cons w vs ih =>
    rw [List.foldl_cons, plus, ih, List.flatMap_cons (x := v), List.append_assoc]

theorem plus_of_isNumber (h : sum.IsNumber) (v : Value) :
    sum.plus v = int (sum.worth + v.worth) := by
  cases sum <;> first | rfl | simp [IsNumber, kind] at h

theorem foldl_plus_number (h : first.IsNumber) (v : Value) (vs : List Value) :
    (v :: vs).foldl plus first = int (first.worth + ((v :: vs).map worth).sum) := by
  induction vs generalizing first v with
  | nil => simp [plus_of_isNumber h]
  | cons w vs ih =>
    rw [List.foldl_cons, plus_of_isNumber h, ih (isNumber_int _), List.map_cons (a := v),
      List.sum_cons, worth, Int.add_assoc]

theorem unit_add {u : Value} (hu : u.kind = .unit) (v : Value) : u.add v = .ok v := by
  cases u <;> first | rfl | cases hu

/-- Units in front of a sum are as if they were not there. -/
theorem foldlM_add_units {u : Value} {units : List Value} (hu : u.kind = .unit)
    (h : ∀ w ∈ units, w.kind = .unit) (v : Value) (vs : List Value) :
    (units ++ v :: vs).foldlM add u = vs.foldlM add v := by
  induction units generalizing u with
  | nil =>
    rw [List.nil_append, List.foldlM_cons, unit_add hu]
    rfl
  | cons w units ih =>
    rw [List.cons_append, List.foldlM_cons, unit_add hu]
    exact ih (h w List.mem_cons_self) fun x hx => h x (List.mem_cons_of_mem _ hx)

end Value

namespace Evaluator

open Value

variable {lower : Evaluator} {es : List Expr} {units rest vs : List Value} {first : Value}
  {m n : Machine}

theorem operate_add_eq (hes : es ≠ []) : lower.operate .add es = lower.combine add .unit es := by
  cases es with
  | nil => exact absurd rfl hes
  | cons e es => rfl

theorem begins_add (lower : Evaluator) (hunits : ∀ u ∈ units, u.kind = .unit) (first : Value) :
    lower.Begins .add (units ++ [first]) add first := by
  intro before after m p hbefore hafter
  rw [operate_add_eq (by simp [hafter]),
    combine_append hbefore (foldlM_add_units rfl hunits first [])]

/-- What a sum of operands that fit on to the first one comes to, behind some units. -/
theorem operate_add_of_fits (h : es.mapM lower.evaluate m = .ok (units ++ first :: rest) n)
    (hunits : ∀ u ∈ units, u.kind = .unit) (hrest : ∀ v ∈ rest, v.FitsOnto first) :
    lower.operate .add es m = .ok (rest.foldl plus first) n := by
  have hes : es ≠ [] := by
    rintro rfl
    simpa using Eval.length_of_mapM h
  rw [operate_add_eq hes]
  exact combine_ok h ((foldlM_add_units rfl hunits first rest).trans (foldlM_add hrest))

/-- A sum of numbers does not depend on which of them it begins with. -/
theorem operate_add_numbers (h : es.mapM lower.evaluate m = .ok vs n) (hvs : ∀ v ∈ vs, v.IsNumber)
    (hlength : 1 < vs.length) : lower.operate .add es m = .ok (.int (vs.map worth).sum) n := by
  obtain ⟨first, rest, rfl⟩ := List.exists_cons_of_length_pos (Nat.zero_lt_of_lt hlength)
  obtain ⟨v, rest, rfl⟩ := List.exists_cons_of_length_pos (Nat.lt_of_succ_lt_succ hlength)
  obtain ⟨hfirst, hrest⟩ := List.forall_mem_cons.1 hvs
  have hfits : ∀ w ∈ v :: rest, w.FitsOnto first := fun w hw => .inr ⟨hfirst, .inl (hrest w hw)⟩
  have hunits : ∀ u ∈ ([] : List Value), u.kind = .unit := by simp
  rw [operate_add_of_fits h hunits hfits, foldl_plus_number hfirst, List.map_cons (a := first),
    List.sum_cons]

theorem operate_add_strings (h : es.mapM lower.evaluate m = .ok vs n)
    (hvs : ∀ v ∈ vs, v.kind = .string) (hne : vs ≠ []) :
    ∃ i, lower.operate .add es m = .ok (.string (vs.flatMap render) i) n := by
  obtain ⟨first, rest, rfl⟩ := List.exists_cons_of_ne_nil hne
  have hfirst : first.kind = .string := hvs first List.mem_cons_self
  have hunits : ∀ u ∈ ([] : List Value), u.kind = .unit := by simp
  rw [operate_add_of_fits h hunits fun _ _ => .inl hfirst]
  cases first with
  | string t i =>
    cases rest with
    | nil => exact ⟨i, by simp [render]⟩
    | cons v rest =>
      refine ⟨false, ?_⟩
      rw [foldl_plus_string, List.flatMap_cons (f := render) (x := string t i), render]
  | _ => cases hfirst

/-- What a sum of one operand or more comes to. Units alone come to a unit, and units in front of
other operands are skipped. A single operand behind them is itself the sum. A text is joined by the
texts of all that follows; to a number, the numbers and characters that follow are added up. In any
other case the sum fails at the first operand that does not fit. So numbers can be added up in any
order, and texts are joined in theirs. -/
theorem operate_add (h : es.mapM lower.evaluate m = .ok vs n) (hvs : vs ≠ []) :
    ((∀ v ∈ vs, v.kind = .unit) → ∃ i, lower.operate .add es m = .ok (.unit i) n) ∧
    (∀ units first rest, vs = units ++ first :: rest → (∀ u ∈ units, u.kind = .unit) →
      first.kind ≠ .unit →
        (rest = [] → lower.operate .add es m = .ok first n) ∧
        (∀ t i, first = .string t i → rest ≠ [] →
          lower.operate .add es m = .ok (.string (t ++ rest.flatMap render)) n) ∧
        (first.IsNumber → rest ≠ [] → (∀ v ∈ rest, v.IsNumber ∨ v.kind = .char) →
          lower.operate .add es m = .ok (.int (first.worth + (rest.map worth).sum)) n) ∧
        ((∃ v ∈ rest, ¬ v.FitsOnto first) → lower.FailsAtFirst .add es (units ++ [first])
          (·.FitsOnto first) (fun _ => .typeMismatch) m)) ∧
    ((∀ v ∈ vs, v.IsNumber) → 1 < vs.length → ∀ es' vs' m' n', vs'.Perm vs →
      es'.mapM lower.evaluate m' = .ok vs' n' →
        lower.operate .add es' m' = .ok (.int (vs.map worth).sum) n') ∧
    ((∀ v ∈ vs, v.kind = .string) →
      ∃ i, lower.operate .add es m = .ok (.string (vs.flatMap render) i) n) := by
  refine ⟨fun hunits => ?_, fun units first rest hvs hunits hfirst => ⟨?_, ?_, ?_, ?_⟩,
    fun hnumbers hlength es' vs' m' n' hperm h' => ?_, fun hstrings => ?_⟩
  · -- units alone
    have hlast : (vs.getLast hvs).kind = .unit := hunits _ (List.getLast_mem hvs)
    rw [← List.dropLast_append_getLast hvs] at h
    rw [operate_add_of_fits h (fun u hu => hunits u (List.dropLast_subset vs hu)) (by simp)]
    cases hu : vs.getLast hvs with
    | unit i => exact ⟨i, rfl⟩
    | _ =>
      rw [hu] at hlast
      cases hlast
  · -- a single operand
    rintro rfl
    rw [hvs] at h
    exact operate_add_of_fits h hunits (by simp)
  · -- a text
    rintro t i rfl hrest
    rw [hvs] at h
    obtain ⟨v, vs, rfl⟩ := List.exists_cons_of_ne_nil hrest
    rw [operate_add_of_fits h hunits fun _ _ => .inl rfl, foldl_plus_string]
  · -- a number
    intro hnumber hrest hfits
    rw [hvs] at h
    obtain ⟨v, vs, rfl⟩ := List.exists_cons_of_ne_nil hrest
    rw [operate_add_of_fits h hunits fun v hv => .inr ⟨hnumber, hfits v hv⟩,
      foldl_plus_number hnumber]
  · -- any other case
    intro hstop
    rw [hvs, List.append_cons] at h
    exact (begins_add lower hunits first).failsAtFirst (selects_add first)
      ⟨hfirst, fun _ => .rfl⟩ h hstop
  · -- numbers in any order
    rw [operate_add_numbers h' (fun v hv => hnumbers v (hperm.mem_iff.1 hv))
      (hperm.length_eq ▸ hlength), (hperm.map worth).sum_eq]
  · -- texts
    exact operate_add_strings h hstrings hvs

/-- Behind a unit, a boolean counts for a number. A text does not, and ends the sum. -/
theorem operate_add_unit_true :
    let m : Machine := ⟨.root .empty, .reading []⟩
    let es : List Expr := [.unit .start, .literal (.bool true) .start]
    let two : Expr := .literal (.int 2) .start
    let text : Expr := .literal (.string "2") .start
    (ofDepth 1 1).operate .add (es ++ [two]) m = .ok (.int 3) m ∧
    (ofDepth 1 1).FailsAtFirst .add (es ++ [text]) [.unit, .bool true] (·.FitsOnto (.bool true))
      (fun _ => .typeMismatch) m := by
  intro m es two text
  have htwo : (es ++ [two]).mapM (ofDepth 1 1).evaluate m = .ok [.unit, .bool true, .int 2] m := rfl
  have htext : (es ++ [text]).mapM (ofDepth 1 1).evaluate m =
      .ok [.unit, .bool true, .string (Text.ofString "2")] m := rfl
  obtain ⟨-, hcases, -, -⟩ := operate_add htwo (by simp)
  obtain ⟨-, -, hnumber, -⟩ :=
    hcases [.unit] (.bool true) [.int 2] rfl (by simp [kind]) (by simp [kind])
  refine ⟨hnumber (.inr rfl) (by simp) (by simp [IsNumber, kind]), ?_⟩
  obtain ⟨-, hcases, -, -⟩ := operate_add htext (by simp)
  obtain ⟨-, -, -, hstop⟩ :=
    hcases [.unit] (.bool true) [.string (Text.ofString "2")] rfl (by simp [kind]) (by simp [kind])
  exact hstop ⟨_, List.mem_singleton_self _, by simp [FitsOnto, IsNumber, kind]⟩

end Evaluator

end SmallLisp
