import SmallLisp.Value.Conversion

/-!
# Operators on values

Arithmetic is on integers of any size; booleans count as zero and one. Addition also joins to a
string the text of anything, and a unit in front of a sum is as if it were not there. Division
truncates toward zero.
-/

set_option autoImplicit false

namespace SmallLisp.Value

/-- The number that a value stands for in arithmetic. -/
def number (operation : String) : Value → Except Fault Int
  | int n _ => .ok n
  | bool b _ => .ok (bit b)
  | v => .error (.notNumber operation v.kind)

/-- What an operand counts for when it is added to a number: an integer, or what converts to one. -/
def addend? : Value → Option Int
  | int n _ => some n
  | bool b _ => some (bit b)
  | char c _ => some c.toNat
  | _ => none

/-- Adds an operand to what has been added up before. -/
def add (sum operand : Value) : Except Fault Value :=
  let onto (n : Int) : Except Fault Value :=
    match operand.addend? with
    | some m => .ok (int (n + m))
    | none => .error (.notAddable operand.kind sum.kind)
  match sum with
  | unit _ => .ok operand
  | string t _ => .ok (string (t ++ operand.render))
  | int n _ => onto n
  | bool b _ => onto (bit b)
  | _ => .error (.notAddable operand.kind sum.kind)

def subtract (left right : Value) : Except Fault Value := do
  let m ← left.number "subtract from"
  let n ← right.number "subtract"
  return int (m - n)

def multiply (left right : Value) : Except Fault Value := do
  let m ← left.number "multiply"
  let n ← right.number "multiply by"
  return int (m * n)

def divide (left right : Value) : Except Fault Value := do
  let m ← left.number "divide"
  let n ← right.number "divide by"
  if n = 0 then .error .divisionByZero else .ok (int (m.tdiv n))

/-- The opposite truth. -/
def negate (v : Value) : Except Fault Value := v.truth.map fun b => bool (!b)

/-- The item at an index, if it is in range. -/
def item {α : Type} (items : List α) (i : Int) : Except Fault α :=
  match if i < 0 then none else items[i.toNat]? with
  | some x => .ok x
  | none => .error (.outOfRange i items.length)

/-- The character of a string, or the item of an array itself, at an index counted from zero. -/
def index (subject position : Value) : Except Fault Value :=
  match subject with
  | string t _ => do (item t (← position.number "index with")).map fun c => char c
  | array items _ => do item items (← position.number "index with")
  | v => .error (.notIndexable v.kind)

end SmallLisp.Value
