import SmallLisp.Value.Conversion

/-!
# The order of values

Values of one kind may be ordered. Strings compare by length in UTF-8 bytes first and by their bytes
second, arrays by length first and then by their first items that are not equal. Booleans are equal
or have no order, and so have functions, which are not even equal to themselves.

`relate` first converts its right operand to the kind of the left one.
-/

set_option autoImplicit false

namespace SmallLisp

namespace Text

/-- How two texts are ordered; none if one of them has no UTF-8 form. -/
def compare? (s t : Text) : Option Ordering :=
  match s.utf8?, t.utf8? with
  | some a, some b => some ((compare a.length b.length).then (compare a b))
  | _, _ => none

end Text

namespace Value

mutual

/-- How two values are ordered; none if they are not. -/
def compare : Value → Value → Except Failure (Option Ordering)
  | unit _, unit _ => .ok (some .eq)
  | int m _, int n _ => .ok (some (Ord.compare m n))
  | char c _, char d _ => .ok (some (Ord.compare c.toNat d.toNat))
  | bool a _, bool b _ => .ok (if a = b then some .eq else none)
  | string s _, string t _ =>
    match s.compare? t with
    | some o => .ok (some o)
    | none => .error .unencodable
  | array xs _, array ys _ =>
    if xs.length = ys.length then compareItems xs ys
    else .ok (some (Ord.compare xs.length ys.length))
  | _, _ => .ok none

/-- How the first items that are not equal are ordered. -/
def compareItems : List Value → List Value → Except Failure (Option Ordering)
  | x :: xs, y :: ys =>
    match x.compare y with
    | .ok (some .eq) => compareItems xs ys
    | other => other
  | _, _ => .ok (some .eq)

end

end Value

/-- Whether a relation holds between two values that are ordered so. Without an order, only
inequality does. -/
def Relation.holds : Relation → Option Ordering → Bool
  | .equal, o => o = some .eq
  | .notEqual, o => o ≠ some .eq
  | .less, o => o = some .lt
  | .lessEqual, o => o = some .lt || o = some .eq
  | .greater, o => o = some .gt
  | .greaterEqual, o => o = some .gt || o = some .eq

namespace Value

/-- Whether a relation holds once the right operand is converted to the kind of the left one. -/
def relate (r : Relation) (left right : Value) : Except Failure Value := do
  let right ← (right.require left.kind "compare").mapError Failure.ofFault
  let order ← left.compare right
  return bool (r.holds order)

end Value

end SmallLisp
