import SmallLisp.Text.CodePoint

/-!
# Decimal numerals

`decimal` writes an integer in base ten, with a minus sign in front of a negative one.
-/

set_option autoImplicit false

namespace SmallLisp

/-- The decimal digits of a number, the most significant first. -/
def decimalDigits (n : Nat) : List Char := Nat.toDigits 10 n

/-- The decimal numeral of an integer. -/
def decimal : Int → String
  | .ofNat n => String.ofList (decimalDigits n)
  | .negSucc n => String.ofList ('-' :: decimalDigits (n + 1))

end SmallLisp
