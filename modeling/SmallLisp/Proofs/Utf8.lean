import SmallLisp.Value.Order

/-!
# The order of UTF-8 forms

The bytes of texts are ordered as their code points are (`Text.compare_flatMap_utf8`), so that texts with
the same bytes are the same.
-/

set_option autoImplicit false

namespace SmallLisp

/-- The bytes of a code point decide the order of texts that begin with it. -/
theorem CodePoint.compare_utf8_append {c d : CodePoint} (h : c.toNat < d.toNat) (r s : List Nat) :
    compare (c.utf8 ++ r) (d.utf8 ++ s) = .lt := by
  have hd := d.isLt
  unfold utf8
  dsimp only
  -- one case for each pair of widths; the first byte tells two widths apart
  repeat' split
  all_goals
    simp only [List.cons_append, List.compare_cons_cons, Ordering.then_eq_lt, Nat.compare_eq_lt,
      Nat.compare_eq_eq]
    omega

theorem CodePoint.utf8_ne_nil (c : CodePoint) : c.utf8 ≠ [] := by
  unfold utf8
  dsimp only
  repeat' split
  all_goals exact List.cons_ne_nil _ _

namespace Text

theorem compare_append_left (bs r s : List Nat) : compare (bs ++ r) (bs ++ s) = compare r s := by
  induction bs with
  | nil => rfl
  | cons b bs ih =>
    rw [List.cons_append, List.cons_append, List.compare_cons_cons, Std.compare_self, ih]
    rfl

theorem compare_nil_append {bs : List Nat} (h : bs ≠ []) (r : List Nat) :
    compare [] (bs ++ r) = .lt := by
  obtain ⟨b, bs, rfl⟩ := List.exists_cons_of_ne_nil h
  exact List.compare_nil_cons

/-- Texts are ordered by their bytes as they are by their code points. -/
theorem compare_flatMap_utf8 (s t : Text) :
    compare (s.flatMap CodePoint.utf8) (t.flatMap CodePoint.utf8) =
      compare (s.map CodePoint.toNat) (t.map CodePoint.toNat) := by
  induction s generalizing t with
  | nil =>
    cases t with
    | nil => rfl
    | cons d t =>
      rw [List.flatMap_nil, List.flatMap_cons, compare_nil_append d.utf8_ne_nil]
      exact List.compare_nil_cons.symm
  | cons c s ih =>
    cases t with
    | nil =>
      rw [List.flatMap_nil, List.flatMap_cons, Std.OrientedOrd.eq_swap,
        compare_nil_append c.utf8_ne_nil]
      exact List.compare_cons_nil.symm
    | cons d t =>
      rw [List.flatMap_cons, List.flatMap_cons, List.map_cons, List.map_cons,
        List.compare_cons_cons]
      rcases Nat.lt_trichotomy c.toNat d.toNat with hlt | heq | hgt
      · rw [CodePoint.compare_utf8_append hlt, Nat.compare_eq_lt.2 hlt]
        rfl
      · rw [CodePoint.ext heq, compare_append_left, Std.compare_self, ih]
        rfl
      · rw [Std.OrientedOrd.eq_swap, CodePoint.compare_utf8_append hgt, Nat.compare_eq_gt.2 hgt]
        rfl

theorem flatMap_utf8_injective {s t : Text}
    (h : s.flatMap CodePoint.utf8 = t.flatMap CodePoint.utf8) : s = t := by
  have hmap : s.map CodePoint.toNat = t.map CodePoint.toNat := by
    rw [← Std.compare_eq_iff_eq, ← compare_flatMap_utf8, h, Std.compare_self]
  exact (List.map_inj_right fun _ _ => CodePoint.ext).1 hmap

end Text

end SmallLisp
