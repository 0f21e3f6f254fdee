/-!
# Code points and texts

A run-time text is a list of code points. Code points are all the numbers below `0x110000`, the
surrogates included: a program may make a character of any code point, and a text of it. A text
without surrogates is a `String` and has a UTF-8 form; one with a surrogate has neither.
-/

set_option autoImplicit false

namespace SmallLisp

/-- A code point: a number below `0x110000`, which may be a surrogate. -/
structure CodePoint where
  toNat : Nat
  isLt : toNat < 0x110000
deriving DecidableEq, Repr

namespace CodePoint

theorem ext {a b : CodePoint} (h : a.toNat = b.toNat) : a = b := by
  cases a; cases b; cases h; rfl

/-- The code point with this number, if there is one. -/
def ofNat? (n : Nat) : Option CodePoint :=
  if h : n < 0x110000 then some ⟨n, h⟩ else none

/-- The code point with this number, if there is one. -/
def ofInt? : Int → Option CodePoint
  | .ofNat n => ofNat? n
  | .negSucc _ => none

/-- The code point of a character. -/
def ofChar (c : Char) : CodePoint where
  toNat := c.toNat
  isLt := by
    have h : c.toNat.isValidChar := c.valid
    simp only [Nat.isValidChar] at h
    omega

/-- A code point that stands for no character. -/
def isSurrogate (c : CodePoint) : Bool := 0xD800 ≤ c.toNat && c.toNat ≤ 0xDFFF

/-- The character of a code point, unless it is a surrogate. -/
def toChar? (c : CodePoint) : Option Char :=
  if h : c.toNat.isValidChar then some (Char.ofNatAux c.toNat h) else none

/-- The UTF-8 bytes of a code point that is no surrogate. -/
def utf8 (c : CodePoint) : List Nat :=
  let n := c.toNat
  if n < 0x80 then [n]
  else if n < 0x800 then [0xC0 + n / 0x40, 0x80 + n % 0x40]
  else if n < 0x10000 then
    [0xE0 + n / 0x1000, 0x80 + n / 0x40 % 0x40, 0x80 + n % 0x40]
  else
    [0xF0 + n / 0x40000, 0x80 + n / 0x1000 % 0x40, 0x80 + n / 0x40 % 0x40, 0x80 + n % 0x40]

instance : Coe Char CodePoint := ⟨ofChar⟩

end CodePoint

/-- A run-time text. Its length and its indices count code points. -/
abbrev Text := List CodePoint

namespace Text

/-- The text of a list of characters. -/
def ofChars (cs : List Char) : Text := cs.map CodePoint.ofChar

/-- The text of a string. -/
def ofString (s : String) : Text := ofChars s.toList

instance : Coe String Text := ⟨ofString⟩

/-- The UTF-8 bytes of a text; none if it holds a surrogate. -/
def utf8? (t : Text) : Option (List Nat) :=
  if t.any CodePoint.isSurrogate then none else some (t.flatMap CodePoint.utf8)

end Text

end SmallLisp
