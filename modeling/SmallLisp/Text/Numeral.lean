import SmallLisp.Text.Blank
import SmallLisp.Text.Digit

/-!
# Numerals in texts

`Text.leadingInteger` reads the integer at the head of a text, with blanks in front of it and
anything behind. The digits may be of any script, and of several.
-/

set_option autoImplicit false

namespace SmallLisp.Text

/-- The number that some decimal digits denote, the most significant first. -/
def digitsValue (digits : Text) : Nat :=
  digits.foldl (fun n c => n * 10 + c.digitValue?.getD 0) 0

/-- The digits at the head of a text. -/
def leadingDigits (t : Text) : Text := t.takeWhile (·.digitValue?.isSome)

/-- The integer at the head of a text: blanks, at most one sign, and as many digits as there are;
zero if no digit stands there. -/
def leadingInteger (t : Text) : Int :=
  match t.dropWhile CodePoint.isBlank with
  | [] => 0
  | c :: rest =>
    if c = CodePoint.ofChar '-' then -digitsValue (leadingDigits rest)
    else if c = CodePoint.ofChar '+' then digitsValue (leadingDigits rest)
    else digitsValue (leadingDigits (c :: rest))

end SmallLisp.Text
