import SmallLisp.Fault

/-!
# Truth and conversion

Which values count as true, and which values of one kind can become values of another. A conversion
to a value's own kind is the value itself, its mark included; any other yields a fresh value.
-/

set_option autoImplicit false

namespace SmallLisp.Value

/-- Whether a value counts as true: a number or a character other than zero, a string that is not
empty, or `true` itself. Arrays and functions are neither true nor false. -/
def truth : Value → Except Fault Bool
  | unit _ => .ok false
  | int n _ => .ok (n ≠ 0)
  | char c _ => .ok (c.toNat ≠ 0)
  | bool b _ => .ok b
  | string t _ => .ok (t ≠ [])
  | v => .error (.noTruth v.kind)

/-- One for `true`, zero for `false`. -/
def bit (b : Bool) : Int := if b then 1 else 0

/-- The value of this kind that a value of another kind becomes; none if there is no such
conversion. Everything has a text and all but arrays and functions a truth. -/
def convert (v : Value) : Kind → Except Fault (Option Value)
  | .string => .ok (some (string v.render))
  | .bool => v.truth.map fun b => some (bool b)
  | .int =>
    match v with
    | bool b _ => .ok (some (int (bit b)))
    | char c _ => .ok (some (int c.toNat))
    | _ => .ok none
  | .char =>
    match v with
    | int n _ => .ok ((CodePoint.ofInt? n).map fun c => char c)
    | _ => .ok none
  | _ => .ok none

/-- The value of this kind that a value can stand for; none if there is no such conversion. -/
def coerce (v : Value) (kind : Kind) : Except Fault (Option Value) :=
  if v.kind = kind then .ok (some v) else v.convert kind

/-- The value of this kind that a value can stand for, which the operation needs. -/
def require (v : Value) (kind : Kind) (operation : String) : Except Fault Value := do
  match ← v.coerce kind with
  | some converted => .ok converted
  | none => .error (.notConvertible operation v.kind kind)

end SmallLisp.Value
