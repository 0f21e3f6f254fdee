import SmallLisp.Text.CodePoint

/-!
# Character classes as ranges

A class of characters is the list of its maximal ranges in increasing order, so a lookup may stop at
the first range above the code point, and still finds it exactly if some range holds it
(`CharSet.contains_iff`).
-/

set_option autoImplicit false

namespace SmallLisp

namespace CharSet

/-- Whether some ranges are nonempty, follow each other upward, and start at this number or above. -/
def increasingFrom (start : Nat) : List (Nat × Nat) → Bool
  | [] => true
  | (low, high) :: more => start ≤ low && low ≤ high && increasingFrom (high + 1) more

/-- Whether one of some increasing ranges holds the number. -/
def search (n : Nat) : List (Nat × Nat) → Bool
  | [] => false
  | (low, high) :: more => if n < low then false else n ≤ high || search n more

theorem le_of_increasingFrom {ranges : List (Nat × Nat)} {start : Nat}
    (h : increasingFrom start ranges = true) : ∀ r ∈ ranges, start ≤ r.1 ∧ r.1 ≤ r.2 := by
  induction ranges generalizing start with
  | nil => simp
  | cons r more ih =>
    obtain ⟨low, high⟩ := r
    simp only [increasingFrom, Bool.and_eq_true, decide_eq_true_eq] at h
    obtain ⟨⟨hs, hle⟩, hm⟩ := h
    intro r hr
    rcases List.mem_cons.1 hr with rfl | hr
    · exact ⟨hs, hle⟩
    · have := ih hm r hr
      exact ⟨by omega, this.2⟩

theorem search_iff {n start : Nat} {ranges : List (Nat × Nat)}
    (h : increasingFrom start ranges = true) :
    search n ranges = true ↔ ∃ r ∈ ranges, r.1 ≤ n ∧ n ≤ r.2 := by
  induction ranges generalizing start with
  | nil => simp [search]
  | cons r more ih =>
    have hb := le_of_increasingFrom h
    obtain ⟨low, high⟩ := r
    simp only [increasingFrom, Bool.and_eq_true, decide_eq_true_eq] at h
    by_cases hn : n < low
    · simp only [search, hn, if_true, Bool.false_eq_true, false_iff]
      rintro ⟨r, hr, hle, -⟩
      rcases List.mem_cons.1 hr with rfl | hr
      · exact absurd hle (Nat.not_le.2 hn)
      · have := (le_of_increasingFrom h.2 r hr).1
        omega
    · have step : search n ((low, high) :: more) = (decide (n ≤ high) || search n more) := by
        simp [search, hn]
      rw [step, Bool.or_eq_true, decide_eq_true_eq, ih h.2]
      constructor
      · rintro (h | ⟨r, hm, h⟩)
        · exact ⟨(low, high), by simp, Nat.not_lt.1 hn, h⟩
        · exact ⟨r, by simp [hm], h⟩
      · rintro ⟨r, hm, h⟩
        rcases List.mem_cons.1 hm with rfl | hm
        · exact .inl h.2
        · exact .inr ⟨r, hm, h⟩

end CharSet

/-- A set of code points: its maximal ranges in increasing order, both ends included. -/
structure CharSet where
  ranges : List (Nat × Nat)
  increasing : CharSet.increasingFrom 0 ranges = true

namespace CharSet

/-- Whether the set holds the code point. -/
def contains (s : CharSet) (c : CodePoint) : Bool := search c.toNat s.ranges

/-- The number of code points in the set. -/
def size (s : CharSet) : Nat :=
  s.ranges.foldl (fun count (low, high) => count + (high + 1 - low)) 0

/-- A code point is in a set exactly if some range holds it. -/
theorem contains_iff {s : CharSet} {c : CodePoint} :
    s.contains c = true ↔ ∃ r ∈ s.ranges, r.1 ≤ c.toNat ∧ c.toNat ≤ r.2 :=
  search_iff s.increasing

end CharSet

end SmallLisp
