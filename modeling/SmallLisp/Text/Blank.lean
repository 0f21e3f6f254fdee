import SmallLisp.Text.CharSet

/-!
# Blank characters

The characters that separate tokens, that are trimmed from the end of a line shown in a picture, and
that may stand before a numeral: tab to carriage return, the four information separators, the space,
the next-line control, and the space, line and paragraph separators of Unicode. Zero-width
characters are not blank.
-/

set_option autoImplicit false

namespace SmallLisp

/-- The blank characters. -/
def CharSet.blank : CharSet where
  ranges :=
    [(0x9, 0xD), (0x1C, 0x20), (0x85, 0x85), (0xA0, 0xA0), (0x1680, 0x1680), (0x2000, 0x200A),
     (0x2028, 0x2029), (0x202F, 0x202F), (0x205F, 0x205F), (0x3000, 0x3000)]
  increasing := by decide +kernel

/-- A blank character. -/
def CodePoint.isBlank (c : CodePoint) : Bool := CharSet.blank.contains c

example : CharSet.blank.size = 29 := by decide

end SmallLisp
