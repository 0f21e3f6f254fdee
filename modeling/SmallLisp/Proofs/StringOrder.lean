import Mathlib.Algebra.Ring.Nat
import SmallLisp.Proofs.Comparison

/-!
# The order of strings

Strings without surrogates are ordered by how many bytes they take in UTF-8, and those that take
equally many by their code points. The comparison itself looks at bytes in the second place; these
never disagree with the code points, although texts of equally many bytes may differ in how many
code points they have. Main statement: `Value.compare_strings`.
-/

set_option autoImplicit false

namespace SmallLisp

namespace CodePoint

/-- How many bytes a code point takes in UTF-8. -/
def utf8Size (c : CodePoint) : Nat :=
  if c.toNat < 0x80 then 1 else if c.toNat < 0x800 then 2 else if c.toNat < 0x10000 then 3 else 4

theorem length_utf8 (c : CodePoint) : c.utf8.length = c.utf8Size := by
  unfold utf8 utf8Size
  dsimp only
  repeat' split
  all_goals rfl

/-- The bytes of a character are those that a `String` holds for it. -/
theorem utf8_ofChar (c : Char) : (ofChar c).utf8 = (String.utf8EncodeChar c).map UInt8.toNat := by
  have hlt := (ofChar c).isLt
  have hnat : (ofChar c).toNat = c.val.toNat := rfl
  rw [hnat] at hlt
  rw [utf8, String.utf8EncodeChar, hnat]
  -- one case for each pair of widths; only the four with equal widths are possible
  repeat' split
  all_goals
    simp only [List.map_cons, List.map_nil, UInt8.toNat_ofNat', List.cons.injEq, and_true]
    omega

/-- What is no surrogate is the code point of a character. -/
theorem exists_char {c : CodePoint} (h : c.isSurrogate = false) : ∃ d, ofChar d = c := by
  have hlt := c.isLt
  have hvalid : c.toNat.isValidChar := by
    simp only [isSurrogate, Bool.and_eq_false_iff, decide_eq_false_iff_not] at h
    simp only [Nat.isValidChar]
    omega
  exact ⟨Char.ofNatAux c.toNat hvalid, ext rfl⟩

end CodePoint

namespace Text

/-- How many bytes a text takes in UTF-8. -/
def utf8Size (t : Text) : Nat := (t.map CodePoint.utf8Size).sum

/-- The code points of a text as numbers. -/
def codes (t : Text) : List Nat := t.map CodePoint.toNat

theorem length_flatMap_utf8 (t : Text) : (t.flatMap CodePoint.utf8).length = t.utf8Size := by
  simp only [List.length_flatMap, CodePoint.length_utf8, utf8Size]

theorem flatMap_utf8_ofChars (cs : List Char) :
    (ofChars cs).flatMap CodePoint.utf8 = (cs.flatMap String.utf8EncodeChar).map UInt8.toNat := by
  rw [ofChars, List.flatMap_map, List.map_flatMap]
  simp only [CodePoint.utf8_ofChar]

theorem Encodable.utf8?_eq {t : Text} (ht : t.Encodable) :
    Text.utf8? t = some (t.flatMap CodePoint.utf8) := by
  obtain ⟨bytes, hbytes⟩ := Option.isSome_iff_exists.1 ht.utf8?
  rw [hbytes, eq_flatMap_of_utf8? hbytes]

/-- The UTF-8 form of the text of a string is what the string is in memory. -/
theorem utf8?_ofString (u : String) :
    (ofString u).utf8? = some (u.toUTF8.data.toList.map UInt8.toNat) := by
  rw [(encodable_ofString u).utf8?_eq, ofString, flatMap_utf8_ofChars, String.toUTF8_eq_toByteArray,
    ← String.utf8Encode_toList, List.utf8Encode, List.data_toByteArray]

/-- A text without surrogates is that of a string. -/
theorem Encodable.exists_string {t : Text} (ht : t.Encodable) : ∃ u : String, ofString u = t := by
  suffices hchars : ∃ cs : List Char, ofChars cs = t by
    obtain ⟨cs, rfl⟩ := hchars
    exact ⟨String.ofList cs, by rw [ofString, String.toList_ofList]⟩
  induction t with
  | nil => exact ⟨[], rfl⟩
  | cons c t ih =>
    have hall := List.forall_mem_cons.1 ht
    obtain ⟨d, rfl⟩ := CodePoint.exists_char hall.1
    obtain ⟨cs, rfl⟩ := ih hall.2
    exact ⟨d :: cs, rfl⟩

theorem Encodable.compare?_eq {s t : Text} (hs : s.Encodable) (ht : t.Encodable) :
    Text.compare? s t = some ((compare s.utf8Size t.utf8Size).then (compare s.codes t.codes)) := by
  rw [Text.compare?, hs.utf8?_eq, ht.utf8?_eq]
  simp only [length_flatMap_utf8, compare_flatMap_utf8, codes]

end Text

namespace Value

/-- Strings without surrogates are ordered by their sizes in bytes and then by their code points,
from the first on, whatever their marks are. They are equal only if they are the same. They are the
texts of two strings of the library, whose bytes are what is compared: as many as these sizes say,
and ordered as the code points are. -/
theorem compare_strings {s t : Text} (hs : s.Encodable) (ht : t.Encodable) (i j : Bool) :
    (string s i).compare (string t j) =
      .ok (some ((Ord.compare s.utf8Size t.utf8Size).then (Ord.compare s.codes t.codes))) ∧
    ((string s i).compare (string t j) = .ok (some .eq) ↔ s = t) ∧
    ∃ (u v : String) (a b : List Nat),
      (Text.ofString u = s ∧ s.utf8? = some a ∧ a = u.toUTF8.data.toList.map UInt8.toNat) ∧
      (Text.ofString v = t ∧ t.utf8? = some b ∧ b = v.toUTF8.data.toList.map UInt8.toNat) ∧
      a.length = s.utf8Size ∧ b.length = t.utf8Size ∧
      Ord.compare a b = Ord.compare s.codes t.codes := by
  have hcompare : (string s i).compare (string t j) =
      .ok (some ((Ord.compare s.utf8Size t.utf8Size).then (Ord.compare s.codes t.codes))) := by
    rw [compare, hs.compare?_eq ht]
  refine ⟨hcompare, ?_, ?_⟩
  · constructor
    · intro h
      rw [compare, hs.compare?_eq ht] at h
      exact Text.eq_of_compare? ((hs.compare?_eq ht).trans (Except.ok.inj h))
    · rintro rfl
      rw [hcompare, Std.compare_self, Std.compare_self]
      rfl
  · obtain ⟨u, hu⟩ := hs.exists_string
    obtain ⟨v, hv⟩ := ht.exists_string
    refine ⟨u, v, _, _, ⟨hu, hs.utf8?_eq, ?_⟩, ⟨hv, ht.utf8?_eq, ?_⟩, s.length_flatMap_utf8,
      t.length_flatMap_utf8, Text.compare_flatMap_utf8 s t⟩
    · rw [← Option.some_inj, ← hs.utf8?_eq, ← hu, Text.utf8?_ofString]
    · rw [← Option.some_inj, ← ht.utf8?_eq, ← hv, Text.utf8?_ofString]

/-- Two code points of one byte each come before one of two bytes, and a longer text of fewer code
points after a shorter one. -/
theorem compare_strings_of_two_bytes :
    let s := Text.ofString "zz"
    let t := Text.ofString "é"
    let u := Text.ofString "😀"
    s.Encodable ∧ t.Encodable ∧ u.Encodable ∧ s.utf8Size = t.utf8Size ∧ t.length < s.length ∧
      (string s).compare (string t) = .ok (some .lt) ∧
      (string u).compare (string s) = .ok (some .gt) := by
  intro s t u
  have hs : s.Encodable := Text.encodable_ofString "zz"
  have ht : t.Encodable := Text.encodable_ofString "é"
  have hu : u.Encodable := Text.encodable_ofString "😀"
  refine ⟨hs, ht, hu, rfl, by decide, ?_, ?_⟩
  · rw [(compare_strings hs ht false false).1]
    rfl
  · rw [(compare_strings hu hs false false).1]
    rfl

end Value

end SmallLisp
