import SmallLisp.Expr
import SmallLisp.Native

/-!
# Values

The data that programs compute with. A value may be marked immutable: a binding that holds a marked
value cannot be assigned. The mark belongs to the value and travels with it; it plays no part in
what the value is otherwise. Native functions are always marked.

A function is its parameters and its body. It captures nothing: free names of the body are looked up
from where the function is called.
-/

set_option autoImplicit false

namespace SmallLisp

/-- What sort of data a value is. -/
inductive Kind
  | unit | int | char | bool | string | array | function | native
deriving DecidableEq, Repr

namespace Kind

def all : List Kind := [unit, int, char, bool, string, array, function, native]

/-- What messages call the kind. -/
def name : Kind → String
  | unit => "UNIT"
  | int => "INT"
  | char => "CHAR"
  | bool => "BOOL"
  | string => "STRING"
  | array => "ARRAY"
  | function => "FUNCTION"
  | native => "NATIVE_FUNCTION"

/-- The kind of this name. -/
def ofName? (name : String) : Option Kind := all.find? (·.name == name)

end Kind

/-- A run-time value. -/
inductive Value
  | unit (immutable : Bool := false)
  | int (n : Int) (immutable : Bool := false)
  | char (c : CodePoint) (immutable : Bool := false)
  | bool (b : Bool) (immutable : Bool := false)
  | string (t : Text) (immutable : Bool := false)
  | array (items : List Value) (immutable : Bool := false)
  | function (params : List String) (body : Expr) (immutable : Bool := false)
  | native (f : Native)

/-- A value that can be called. -/
inductive Callable
  | function (params : List String) (body : Expr)
  | native (f : Native)

namespace Callable

def arity : Callable → Arity
  | function params _ => .exactly params.length
  | native f => f.arity

/-- What messages call it when it is not called by a name. -/
def label : Callable → String
  | function _ _ => "function"
  | native f => f.name

end Callable

namespace Value

instance : Inhabited Value := ⟨.unit⟩

def kind : Value → Kind
  | unit _ => .unit
  | int _ _ => .int
  | char _ _ => .char
  | bool _ _ => .bool
  | string _ _ => .string
  | array _ _ => .array
  | function _ _ _ => .function
  | native _ => .native

/-- Whether a binding that holds the value refuses to be assigned. -/
def immutable : Value → Bool
  | unit i | int _ i | char _ i | bool _ i | string _ i | array _ i | function _ _ i => i
  | native _ => true

/-- The same data with the mark set. -/
def freeze : Value → Value
  | unit _ => unit true
  | int n _ => int n true
  | char c _ => char c true
  | bool b _ => bool b true
  | string t _ => string t true
  | array items _ => array items true
  | function params body _ => function params body true
  | native f => native f

/-- What is called when the value is. -/
def callable? : Value → Option Callable
  | function params body _ => some (.function params body)
  | native f => some (.native f)
  | _ => none

mutual

/-- The text of a value, as printing shows it and as conversion to a string yields it. -/
def render : Value → Text
  | unit _ => Text.ofString "()"
  | int n _ => Text.ofString (decimal n)
  | char c _ => [c]
  | bool b _ => Text.ofString (if b then "true" else "false")
  | string t _ => t
  | array items _ => Text.ofString "(@" ++ renderItems items ++ Text.ofString ")"
  | function _ _ _ => Text.ofString "<function>"
  | native f => Text.ofString (Native.display f.name)

/-- The texts of some values, each behind a space. -/
def renderItems : List Value → Text
  | [] => []
  | v :: vs => Text.ofString " " ++ (v.render ++ renderItems vs)

end

/-- The kind and the text of a value, in angle brackets. -/
def describe (v : Value) : Text :=
  Text.ofString ("<" ++ v.kind.name ++ " ") ++ v.render ++ Text.ofString ">"

mutual

/-- Whether two values are of one kind and hold the same data. Functions hold no data to compare: no
function is the same as another value. -/
def sameData : Value → Value → Bool
  | unit _, unit _ => true
  | int m _, int n _ => m = n
  | char c _, char d _ => c = d
  | bool a _, bool b _ => a = b
  | string s _, string t _ => s = t
  | array xs _, array ys _ => sameItems xs ys
  | _, _ => false

/-- Whether two lists of values hold the same data, item by item. -/
def sameItems : List Value → List Value → Bool
  | [], [] => true
  | x :: xs, y :: ys => x.sameData y && sameItems xs ys
  | _, _ => false

end

end Value

end SmallLisp
