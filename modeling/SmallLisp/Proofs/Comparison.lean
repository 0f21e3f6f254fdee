import SmallLisp.Proofs.Encoding
import SmallLisp.Proofs.Utf8

/-!
# The order of values is lawful

To compare two values the other way round swaps the answer (`Value.compare_swap`), the answer depends on
the data alone and not on marks (`Value.compare_unmarked`), it is "equal" exactly for the same data
without functions in it (`Value.compare_eq_iff`), and what is less than less is less
(`Value.compare_trans`). Arrays are compared up to the first items that are not equal, so each of these is
proved for two lists of items from what holds of the items. Main statement: `Value.compare_lawful`.
-/

set_option autoImplicit false

namespace SmallLisp

/-! ## Texts -/

namespace Text

theorem compare?_swap (s t : Text) : t.compare? s = (s.compare? t).map Ordering.swap := by
  unfold compare?
  cases s.utf8? with
  | none => cases t.utf8? <;> rfl
  | some a =>
    cases t.utf8? with
    | none => rfl
    | some b =>
      simp only [Option.map_some, Ordering.swap_then]
      rw [Std.OrientedOrd.eq_swap (a := b.length), Std.OrientedOrd.eq_swap (a := b)]

theorem eq_flatMap_of_utf8? {t : Text} {a : List Nat} (h : t.utf8? = some a) :
    a = t.flatMap CodePoint.utf8 := by
  unfold utf8? at h
  split at h
  · cases h
  · exact (Option.some.inj h).symm

/-- Texts are ordered as the lengths of their bytes are, and if these are equal as their bytes are. -/
theorem compare?_eq_some_iff {s t : Text} {o : Ordering} : s.compare? t = some o ↔
    ∃ a b, s.utf8? = some a ∧ t.utf8? = some b ∧
      (compare a.length b.length).then (compare a b) = o := by
  unfold compare?
  cases s.utf8? with
  | none => simp
  | some a => cases t.utf8? <;> simp

theorem eq_of_compare? {s t : Text} (h : s.compare? t = some .eq) : s = t := by
  obtain ⟨a, b, ha, hb, heq⟩ := compare?_eq_some_iff.1 h
  have hbytes : a = b := Std.compare_eq_iff_eq.1 (Ordering.then_eq_eq.1 heq).2
  rw [eq_flatMap_of_utf8? ha, eq_flatMap_of_utf8? hb] at hbytes
  exact flatMap_utf8_injective hbytes

theorem Encodable.compare?_self {t : Text} (ht : t.Encodable) : t.compare? t = some .eq := by
  obtain ⟨a, ha⟩ := Option.isSome_iff_exists.1 ht.utf8?
  exact compare?_eq_some_iff.2 ⟨a, a, ha, ha, by rw [Std.compare_self, Std.compare_self]; rfl⟩

theorem compare?_trans {s t u : Text} (hst : s.compare? t = some .lt)
    (htu : t.compare? u = some .lt) : s.compare? u = some .lt := by
  obtain ⟨a, b, ha, hb, hab⟩ := compare?_eq_some_iff.1 hst
  obtain ⟨b', c, hb', hc, hbc⟩ := compare?_eq_some_iff.1 htu
  obtain rfl := Option.some.inj (hb.symm.trans hb')
  refine compare?_eq_some_iff.2 ⟨a, c, ha, hc, ?_⟩
  rw [Ordering.then_eq_lt, Nat.compare_eq_lt, Nat.compare_eq_eq] at hab hbc ⊢
  rcases hab with hab | ⟨hab, hlt⟩
  · rcases hbc with hbc | ⟨hbc, -⟩
    · exact .inl (Nat.lt_trans hab hbc)
    · exact .inl (hbc ▸ hab)
  · rcases hbc with hbc | ⟨hbc, hlt'⟩
    · exact .inl (hab ▸ hbc)
    · exact .inr ⟨hab.trans hbc, Std.TransCmp.lt_trans hlt hlt'⟩

end Text

namespace Value

/-! ## The same data -/

mutual

/-- The same data without any marks. -/
def unmarked : Value → Value
  | unit _ => unit
  | int n _ => int n
  | char c _ => char c
  | bool b _ => bool b
  | string t _ => string t
  | array items _ => array (unmarkedItems items)
  | function params body _ => function params body
  | native f => native f

/-- The same items without any marks. -/
def unmarkedItems : List Value → List Value
  | [] => []
  | v :: vs => v.unmarked :: unmarkedItems vs

end

/-- There is no function in the value, at any nesting. -/
def FunctionFree (v : Value) : Prop := v.Everywhere fun v => v.callable? = none

theorem length_unmarkedItems (vs : List Value) : (unmarkedItems vs).length = vs.length := by
  induction vs with
  | nil => rfl
  | cons v vs ih => rw [unmarkedItems, List.length_cons, List.length_cons, ih]

theorem functionFree_array {vs : List Value} {i : Bool} :
    (array vs i).FunctionFree ↔ ∀ v ∈ vs, v.FunctionFree :=
  ⟨fun h _ hv => h.item hv, fun h => .intro rfl h⟩

theorem sameItems_iff (xs : List Value)
    (h : ∀ x ∈ xs, ∀ y, x.sameData y = true ↔ x.unmarked = y.unmarked ∧ x.FunctionFree)
    (ys : List Value) : sameItems xs ys = true ↔
      unmarkedItems xs = unmarkedItems ys ∧ ∀ x ∈ xs, x.FunctionFree := by
  induction xs generalizing ys with
  | nil => cases ys <;> simp [sameItems, unmarkedItems]
  | cons x xs ih =>
    obtain ⟨hx, hxs⟩ := List.forall_mem_cons.1 h
    cases ys with
    | nil => simp [sameItems, unmarkedItems]
    | cons y ys =>
      rw [sameItems, Bool.and_eq_true, hx y, ih hxs ys, unmarkedItems, unmarkedItems,
        List.cons.injEq, List.forall_mem_cons]
      exact and_and_and_comm

/-- Two values hold the same data if they are the same but for marks and there is no function in them. -/
theorem sameData_iff (a b : Value) :
    a.sameData b = true ↔ a.unmarked = b.unmarked ∧ a.FunctionFree := by
  induction a using induction_on_items generalizing b with
  | h a ih =>
    cases a with
    | array xs i =>
      cases b with
      | array ys j =>
        rw [sameData, sameItems_iff xs ih ys, functionFree_array, unmarked, unmarked, array.injEq]
        simp
      | _ => simp [sameData, unmarked]
    | function params body i =>
      refine iff_of_false (by simp [sameData]) fun h => ?_
      cases h.2.self
    | native f =>
      refine iff_of_false (by simp [sameData]) fun h => ?_
      cases h.2.self
    | _ =>
      rw [and_iff_left (show FunctionFree _ from .of_no_items rfl rfl)]
      cases b <;> simp [sameData, unmarked]

/-! ## Comparison -/

theorem compareItems_swap (xs : List Value)
    (h : ∀ x ∈ xs, ∀ y, y.compare x = (x.compare y).map (·.map .swap)) (ys : List Value) :
    compareItems ys xs = (compareItems xs ys).map (·.map .swap) := by
  induction xs generalizing ys with
  | nil => cases ys <;> rfl
  | cons x xs ih =>
    obtain ⟨hx, hxs⟩ := List.forall_mem_cons.1 h
    cases ys with
    | nil => rfl
    | cons y ys =>
      rw [compareItems, compareItems, hx y]
      rcases x.compare y with f | _ | _ | _ | _
      · rfl
      · rfl
      · rfl
      · exact ih hxs ys
      · rfl

/-- To compare the other way round swaps the answer. -/
theorem compare_swap (a b : Value) : b.compare a = (a.compare b).map (·.map .swap) := by
  induction a using induction_on_items generalizing b with
  | h a ih =>
    cases a with
    | array xs i =>
      cases b with
      | array ys j =>
        rw [compare, compare]
        by_cases hlen : xs.length = ys.length
        · rw [if_pos hlen, if_pos hlen.symm]
          exact compareItems_swap xs ih ys
        · rw [if_neg hlen, if_neg (Ne.symm hlen), Std.OrientedOrd.eq_swap]
          rfl
      | _ => rfl
    | string s i =>
      cases b with
      | string t j =>
        rw [compare, compare, Text.compare?_swap]
        cases s.compare? t <;> rfl
      | _ => rfl
    | bool x i =>
      cases b with
      | bool y j => cases x <;> cases y <;> rfl
      | _ => rfl
    | int m i =>
      cases b with
      | int n j => rw [compare, compare, Std.OrientedOrd.eq_swap]; rfl
      | _ => rfl
    | char c i =>
      cases b with
      | char d j => rw [compare, compare, Std.OrientedOrd.eq_swap]; rfl
      | _ => rfl
    | _ => cases b <;> rfl

/-- An answer the one way round is the swapped answer the other way round. -/
theorem compare_iff_swap {a b : Value} {o : Option Ordering} :
    a.compare b = .ok o ↔ b.compare a = .ok (o.map .swap) := by
  constructor
  · intro h
    rw [compare_swap, h]
    rfl
  · intro h
    rw [compare_swap b a, h]
    rcases o with _ | _ | _ | _ <;> rfl

theorem compareItems_unmarked (xs : List Value)
    (h : ∀ x ∈ xs, ∀ y : Value, x.unmarked.compare y.unmarked = x.compare y) (ys : List Value) :
    compareItems (unmarkedItems xs) (unmarkedItems ys) = compareItems xs ys := by
  induction xs generalizing ys with
  | nil => cases ys <;> rfl
  | cons x xs ih =>
    obtain ⟨hx, hxs⟩ := List.forall_mem_cons.1 h
    cases ys with
    | nil => rfl
    | cons y ys => rw [unmarkedItems, unmarkedItems, compareItems, compareItems, hx y, ih hxs ys]

/-- Marks play no part in comparison. -/
theorem compare_unmarked (a b : Value) : a.unmarked.compare b.unmarked = a.compare b := by
  induction a using induction_on_items generalizing b with
  | h a ih =>
    cases a with
    | array xs i =>
      cases b with
      | array ys j =>
        rw [unmarked, unmarked, compare, compare, length_unmarkedItems, length_unmarkedItems,
          compareItems_unmarked xs ih ys]
      | _ => rfl
    | _ => cases b <;> rfl

/-- Equal values compare alike with all others. -/
theorem compare_congr {a b : Value} (h : a.unmarked = b.unmarked) (c : Value) :
    a.compare c = b.compare c := by
  rw [← compare_unmarked a, h, compare_unmarked]

theorem sameItems_of_compareItems (xs : List Value)
    (h : ∀ x ∈ xs, ∀ y, x.compare y = .ok (some .eq) → x.sameData y = true) {ys : List Value}
    (hlen : xs.length = ys.length) (heq : compareItems xs ys = .ok (some .eq)) :
    sameItems xs ys = true := by
  induction xs generalizing ys with
  | nil =>
    cases ys with
    | nil => rfl
    | cons y ys => cases hlen
  | cons x xs ih =>
    obtain ⟨hx, hxs⟩ := List.forall_mem_cons.1 h
    cases ys with
    | nil => cases hlen
    | cons y ys =>
      rw [compareItems] at heq
      split at heq
      · rename_i hxy
        rw [sameItems, hx y hxy, ih hxs (Nat.succ.inj hlen) heq]
        rfl
      · rename_i hne
        exact absurd heq hne

/-- Values that compare as equal hold the same data. -/
theorem sameData_of_compare {a b : Value} (h : a.compare b = .ok (some .eq)) :
    a.sameData b = true := by
  induction a using induction_on_items generalizing b with
  | h a ih =>
    unfold compare at h
    split at h
    · rfl
    · exact decide_eq_true (Std.compare_eq_iff_eq.1 (Option.some.inj (Except.ok.inj h)))
    · have hcode := Nat.compare_eq_eq.1 (Option.some.inj (Except.ok.inj h))
      exact decide_eq_true (CodePoint.ext hcode)
    · split at h
      · rename_i heq
        exact decide_eq_true heq
      · cases h
    · rename_i s i t j
      split at h
      · rename_i o ho
        cases h
        exact decide_eq_true (Text.eq_of_compare? ho)
      · cases h
    · rename_i xs i ys j
      split at h
      · rename_i hlen
        exact sameItems_of_compareItems xs (fun x hx y hxy => ih x hx hxy) hlen h
      · rename_i hlen
        exact absurd (Nat.compare_eq_eq.1 (Option.some.inj (Except.ok.inj h))) hlen
    · cases h

theorem compareItems_of_sameItems (xs : List Value)
    (h : ∀ x ∈ xs, ∀ y, x.sameData y = true → x.compare y = .ok (some .eq)) {ys : List Value}
    (hsame : sameItems xs ys = true) :
    xs.length = ys.length ∧ compareItems xs ys = .ok (some .eq) := by
  induction xs generalizing ys with
  | nil =>
    cases ys with
    | nil => exact ⟨rfl, rfl⟩
    | cons y ys => cases hsame
  | cons x xs ih =>
    obtain ⟨hx, hxs⟩ := List.forall_mem_cons.1 h
    cases ys with
    | nil => cases hsame
    | cons y ys =>
      obtain ⟨hxy, hsame⟩ := Bool.and_eq_true_iff.1 hsame
      obtain ⟨hlen, hcompare⟩ := ih hxs hsame
      refine ⟨congrArg (· + 1) hlen, ?_⟩
      rw [compareItems, hx y hxy]
      exact hcompare

/-- Values that hold the same data compare as equal, unless a text in them has no UTF-8 form. -/
theorem compare_of_sameData {a b : Value} (ha : a.Everywhere TextEncodable)
    (h : a.sameData b = true) : a.compare b = .ok (some .eq) := by
  induction a using induction_on_items generalizing b with
  | h a ih =>
    unfold sameData at h
    split at h
    · rfl
    · obtain rfl := of_decide_eq_true h
      rw [compare, Std.compare_self]
    · obtain rfl := of_decide_eq_true h
      rw [compare, Std.compare_self]
    · obtain rfl := of_decide_eq_true h
      rw [compare, if_pos rfl]
    · obtain rfl := of_decide_eq_true h
      rw [compare, Text.Encodable.compare?_self ha.self]
    · rename_i xs i ys j
      obtain ⟨hlen, hcompare⟩ :=
        compareItems_of_sameItems xs (fun x hx y => ih x hx (ha.item hx)) h
      rw [compare, if_pos hlen, hcompare]
    · cases h

theorem compare_eq_iff {a b : Value} (ha : a.Everywhere TextEncodable) :
    a.compare b = .ok (some .eq) ↔ a.sameData b = true :=
  ⟨sameData_of_compare, compare_of_sameData ha⟩

/-- What is equal compares alike with all others. -/
theorem congr_of_compare {a b : Value} (h : a.compare b = .ok (some .eq)) (c : Value) :
    a.compare c = b.compare c ∧ c.compare a = c.compare b := by
  have hsame := ((sameData_iff a b).1 (sameData_of_compare h)).1
  refine ⟨compare_congr hsame c, ?_⟩
  rw [compare_swap a c, compare_swap b c, compare_congr hsame c]

theorem compareItems_cons_eq_lt {x y : Value} {xs ys : List Value} :
    compareItems (x :: xs) (y :: ys) = .ok (some .lt) ↔ x.compare y = .ok (some .lt) ∨
      x.compare y = .ok (some .eq) ∧ compareItems xs ys = .ok (some .lt) := by
  rw [compareItems]
  rcases x.compare y with f | _ | _ | _ | _ <;> simp

theorem compareItems_trans (xs : List Value)
    (h : ∀ x ∈ xs, ∀ y z, x.compare y = .ok (some .lt) → y.compare z = .ok (some .lt) →
      x.compare z = .ok (some .lt)) {ys zs : List Value}
    (hxy : compareItems xs ys = .ok (some .lt)) (hyz : compareItems ys zs = .ok (some .lt)) :
    compareItems xs zs = .ok (some .lt) := by
  induction xs generalizing ys zs with
  | nil => cases ys <;> cases hxy
  | cons x xs ih =>
    obtain ⟨hx, hxs⟩ := List.forall_mem_cons.1 h
    match ys, zs, hxy, hyz with
    | y :: ys, z :: zs, hxy, hyz =>
      rw [compareItems_cons_eq_lt] at hxy hyz ⊢
      -- where the first two part, where the last two do, and which comes first
      rcases hxy with hxy | ⟨hxy, hxys⟩
      · rcases hyz with hyz | ⟨hyz, -⟩
        · exact .inl (hx y z hxy hyz)
        · exact .inl ((congr_of_compare hyz x).2 ▸ hxy)
      · rw [(congr_of_compare hxy z).1]
        rcases hyz with hyz | ⟨hyz, hyzs⟩
        · exact .inl hyz
        · exact .inr ⟨hyz, ih hxs hxys hyzs⟩

/-- How one value is less than another. -/
inductive Less : Value → Value → Prop
  | int {m n : Int} (i j : Bool) (h : m < n) : Less (int m i) (int n j)
  | char {c d : CodePoint} (i j : Bool) (h : c.toNat < d.toNat) : Less (char c i) (char d j)
  | string {s t : Text} (i j : Bool) (h : s.compare? t = some .lt) : Less (string s i) (string t j)
  | length {xs ys : List Value} (i j : Bool) (h : xs.length < ys.length) :
      Less (array xs i) (array ys j)
  | item {xs ys : List Value} (i j : Bool) (hlen : xs.length = ys.length)
      (h : compareItems xs ys = .ok (some .lt)) : Less (array xs i) (array ys j)

theorem less_iff {a b : Value} : a.compare b = .ok (some .lt) ↔ Less a b := by
  constructor
  · intro h
    unfold compare at h
    split at h
    · cases h
    · rename_i m i n j
      have hlt : Ord.compare m n = .lt := Option.some.inj (Except.ok.inj h)
      exact .int i j (Int.compare_eq_lt.1 hlt)
    · rename_i c i d j
      exact .char i j (Nat.compare_eq_lt.1 (Option.some.inj (Except.ok.inj h)))
    · split at h <;> cases h
    · rename_i s i t j
      split at h
      · rename_i o ho
        cases h
        exact .string i j ho
      · cases h
    · rename_i xs i ys j
      split at h
      · rename_i hlen
        exact .item i j hlen h
      · exact .length i j (Nat.compare_eq_lt.1 (Option.some.inj (Except.ok.inj h)))
    · cases h
  · intro h
    cases h with
    | int i j h => rw [compare, Int.compare_eq_lt.2 h]
    | char i j h => rw [compare, Nat.compare_eq_lt.2 h]
    | string i j h => rw [compare, h]
    | length i j h => rw [compare, if_neg (Nat.ne_of_lt h), Nat.compare_eq_lt.2 h]
    | item i j hlen h => rw [compare, if_pos hlen, h]

/-- What is less than something less is less. -/
theorem compare_trans {a b c : Value} (hab : a.compare b = .ok (some .lt))
    (hbc : b.compare c = .ok (some .lt)) : a.compare c = .ok (some .lt) := by
  induction a using induction_on_items generalizing b c with
  | h a ih =>
    rw [less_iff] at hab hbc ⊢
    cases hab with
    | int i j h =>
      cases hbc with
      | int _ k h' => exact .int i k (Int.lt_trans h h')
    | char i j h =>
      cases hbc with
      | char _ k h' => exact .char i k (Nat.lt_trans h h')
    | string i j h =>
      cases hbc with
      | string _ k h' => exact .string i k (Text.compare?_trans h h')
    | length i j h =>
      cases hbc with
      | length _ k h' => exact .length i k (Nat.lt_trans h h')
      | item _ k hlen h' => exact .length i k (hlen ▸ h)
    | @item xs ys i j hlen h =>
      cases hbc with
      | length _ k h' => exact .length i k (hlen ▸ h')
      | item _ k hlen' h' =>
        exact .item i k (hlen.trans hlen') (compareItems_trans xs (fun x hx y z => ih x hx) h h')

/-! ## Kinds that are ordered -/

/-- The kinds whose values are all ordered among each other. -/
def orderedKinds : List Kind := [.unit, .int, .char, .string]

/-- Values of one of these kinds are ordered. -/
theorem exists_ordering {a b : Value} (hkind : a.kind = b.kind) (ha : a.kind ∈ orderedKinds)
    (hta : a.TextEncodable) (htb : b.TextEncodable) : ∃ o, a.compare b = .ok (some o) := by
  cases a <;> cases b <;> cases hkind
  case unit => exact ⟨_, rfl⟩
  case int => exact ⟨_, rfl⟩
  case char => exact ⟨_, rfl⟩
  case string s i t j =>
    obtain ⟨o, ho⟩ := Option.ne_none_iff_exists'.1 (Text.Encodable.compare? hta htb)
    exact ⟨o, by rw [compare, ho]⟩
  all_goals simp [orderedKinds, kind] at ha

/-- Values of one kind are related as they are ordered. -/
theorem relate_of_kind {a b : Value} (hkind : a.kind = b.kind) {o : Option Ordering}
    (ho : a.compare b = .ok o) (r : Relation) : a.relate r b = .ok (bool (r.holds o)) := by
  have hrequire : b.require a.kind "compare" = .ok b := by
    rw [require, coerce, if_pos hkind.symm]
    rfl
  rw [relate_eq, hrequire]
  simp only [ho]

/-- The order of values is lawful: where no text lacks a UTF-8 form, two values can be compared; the
other way round, less is greater and equal and unordered stay; less is transitive; equal values compare
alike with any value; two values are equal exactly if they are the same but for marks and there is no
function in them. Two units, integers, characters or strings are always ordered, so that exactly one of
less, equal and greater holds between them, and each of the other two relations is the opposite of one
of these. -/
theorem compare_lawful {a b : Value} (ha : a.Everywhere TextEncodable)
    (hb : b.Everywhere TextEncodable) :
    (∃ o, a.compare b = .ok o) ∧
    (a.compare b = .ok (some .lt) ↔ b.compare a = .ok (some .gt)) ∧
    (a.compare b = .ok (some .eq) ↔ b.compare a = .ok (some .eq)) ∧
    (a.compare b = .ok none ↔ b.compare a = .ok none) ∧
    (∀ c, a.compare b = .ok (some .lt) → b.compare c = .ok (some .lt) →
      a.compare c = .ok (some .lt)) ∧
    (∀ c, a.compare b = .ok (some .eq) → a.compare c = b.compare c ∧ c.compare a = c.compare b) ∧
    (a.compare b = .ok (some .eq) ↔
      a.unmarked = b.unmarked ∧ a.FunctionFree ∧ b.FunctionFree) ∧
    (a.kind = b.kind → a.kind ∈ orderedKinds →
      a.compare b ≠ .ok none ∧ ∃ less equal greater : Bool,
        [less, equal, greater].count true = 1 ∧
        a.relate .less b = .ok (bool less) ∧ a.relate .equal b = .ok (bool equal) ∧
        a.relate .greater b = .ok (bool greater) ∧
        a.relate .lessEqual b = .ok (bool !greater) ∧
        a.relate .greaterEqual b = .ok (bool !less)) := by
  have hanswer : ∃ o, a.compare b = .ok o := by
    cases ho : a.compare b with
    | ok o => exact ⟨o, rfl⟩
    | error f => exact absurd ⟨ha, hb⟩ (compare_error ho).2
  refine ⟨hanswer, compare_iff_swap, compare_iff_swap, compare_iff_swap, fun c => compare_trans,
    fun c h => congr_of_compare h c, ?_, ?_⟩
  · rw [compare_eq_iff ha, sameData_iff]
    refine ⟨fun ⟨hsame, hfree⟩ => ⟨hsame, hfree, ?_⟩, fun ⟨hsame, hfree, _⟩ => ⟨hsame, hfree⟩⟩
    have hba : b.compare a = .ok (some .eq) :=
      compare_iff_swap.1 ((compare_eq_iff ha).2 ((sameData_iff a b).2 ⟨hsame, hfree⟩))
    exact ((sameData_iff b a).1 (sameData_of_compare hba)).2
  · intro hkind hordered
    obtain ⟨o, ho⟩ := exists_ordering hkind hordered ha.self hb.self
    have hrelate := relate_of_kind hkind ho
    refine ⟨by rw [ho]; nofun, ?_⟩
    cases o with
    | lt => exact ⟨true, false, false, rfl, hrelate _, hrelate _, hrelate _, hrelate _, hrelate _⟩
    | eq => exact ⟨false, true, false, rfl, hrelate _, hrelate _, hrelate _, hrelate _, hrelate _⟩
    | gt => exact ⟨false, false, true, rfl, hrelate _, hrelate _, hrelate _, hrelate _, hrelate _⟩

/-- Arrays whose second items are arrays of a string, of a longer string and of a truth. -/
theorem compare_lawful_arrays :
    let a := array [int 1, array [string (Text.ofString "x")]]
    let b := array [int 1 true, array [string (Text.ofString "yz")]]
    let c := array [int 1, array [bool true]]
    a.compare b = .ok (some .lt) ∧ b.compare a = .ok (some .gt) ∧
      b.compare c = .ok none ∧ c.compare b = .ok none := by
  intro a b c
  have leaf {v : Value} (hitems : v.items = []) (hv : v.TextEncodable) :
      v.Everywhere TextEncodable := .of_no_items hitems hv
  have nested {v w : Value} (hv : v.Everywhere TextEncodable) (hw : w.Everywhere TextEncodable) :
      (array [v, array [w]]).Everywhere TextEncodable := by
    have hinner : (array [w]).Everywhere TextEncodable :=
      .intro trivial (List.forall_mem_singleton.2 hw)
    exact .intro trivial (List.forall_mem_cons.2 ⟨hv, List.forall_mem_singleton.2 hinner⟩)
  have ha : a.Everywhere TextEncodable :=
    nested (leaf rfl trivial) (leaf rfl (Text.encodable_ofString "x"))
  have hb : b.Everywhere TextEncodable :=
    nested (leaf rfl trivial) (leaf rfl (Text.encodable_ofString "yz"))
  have hc : c.Everywhere TextEncodable := nested (leaf rfl trivial) (leaf rfl trivial)
  exact ⟨rfl, (compare_lawful ha hb).2.1.1 rfl, rfl, (compare_lawful hb hc).2.2.2.1.1 rfl⟩

end Value

end SmallLisp
