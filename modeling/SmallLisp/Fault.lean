import SmallLisp.Value

/-!
# Faults of evaluation

A fault says why an operation has no result. Each has a kind, which is what a report names, and a
message. An error is a fault with the place that is blamed for it, once that is known.

A computation may also fail without a fault: a string with a surrogate has no UTF-8 form to compare,
and nesting or repetition may go beyond the limits of a run.
-/

set_option autoImplicit false

namespace SmallLisp

/-- What sort of fault it is. -/
inductive FaultKind
  | typeMismatch | arityMismatch | unboundName | redeclared | immutableBinding | indexOutOfRange
  | divisionByZero | endOfInput
deriving DecidableEq, Repr

namespace FaultKind

def all : List FaultKind :=
  [typeMismatch, arityMismatch, unboundName, redeclared, immutableBinding, indexOutOfRange,
   divisionByZero, endOfInput]

/-- What reports call it. -/
def name : FaultKind → String
  | typeMismatch => "TypeMismatch"
  | arityMismatch => "ArityMismatch"
  | unboundName => "UnboundName"
  | redeclared => "Redeclared"
  | immutableBinding => "ImmutableBinding"
  | indexOutOfRange => "IndexOutOfRange"
  | divisionByZero => "DivisionByZero"
  | endOfInput => "EndOfInput"

/-- The kind of this name. -/
def ofName? (name : String) : Option FaultKind := all.find? (·.name == name)

end FaultKind

/-- How many operands an operator takes. -/
def Operator.arity : Operator → Arity
  | .add | .sequence => .atLeast 1
  | .subtract | .divide => .atLeast 2
  | .multiply | .array => .atLeast 0
  | .relation _ | .index => .exactly 2
  | .not => .exactly 1

/-- Why an operation has no result. -/
inductive Fault
  /-- A value that is neither true nor false. -/
  | noTruth (found : Kind)
  /-- A value that cannot become one of another kind, as the operation asks. -/
  | notConvertible (operation : String) (found wanted : Kind)
  /-- An operand of arithmetic that stands for no number. -/
  | notNumber (operation : String) (found : Kind)
  /-- An operand that cannot be added to what has been added up before. -/
  | notAddable (operand sum : Kind)
  /-- A value without items. -/
  | notIndexable (found : Kind)
  /-- The value of this variable cannot be called. -/
  | notCallable (name : String)
  /-- A native function that takes another kind. -/
  | wrongArgument (native : Native) (wanted found : Kind)
  /-- A value that has no length. -/
  | noLength (found : Kind)
  /-- A value that cannot be mapped over an array. -/
  | notMapping (found : Kind)
  /-- A call with a number of arguments that the callee does not accept. -/
  | wrongCount (callee : String) (arity : Arity) (count : Nat)
  /-- A number of operands that the operator does not accept. -/
  | wrongOperands (operator : Operator) (count : Nat)
  /-- No variable of this name to read. -/
  | noVariable (name : String)
  /-- No variable of this name to assign. -/
  | noTarget (name : String)
  /-- No variable of this name to call. -/
  | noFunction (name : String)
  /-- The frame already holds a variable of this name. -/
  | redeclared (name : String)
  /-- The value of this variable is immutable. -/
  | immutable (name : String)
  /-- An index outside a string or an array. -/
  | outOfRange (index : Int) (length : Nat)
  | divisionByZero
  /-- No line is left to read. -/
  | endOfInput

namespace Fault

def kind : Fault → FaultKind
  | noTruth _ | notConvertible .. | notNumber .. | notAddable .. | notIndexable _ | notCallable _
  | wrongArgument .. | noLength _ | notMapping _ => .typeMismatch
  | wrongCount .. | wrongOperands .. => .arityMismatch
  | noVariable _ | noTarget _ | noFunction _ => .unboundName
  | redeclared _ => .redeclared
  | immutable _ => .immutableBinding
  | outOfRange .. => .indexOutOfRange
  | divisionByZero => .divisionByZero
  | endOfInput => .endOfInput

/-- A name between quotes. -/
def quoted (name : String) : String := "'" ++ name ++ "'"

def message : Fault → String
  | noTruth found => "Cannot convert " ++ found.name ++ " to " ++ Kind.bool.name
  | notConvertible operation found wanted =>
    "Cannot " ++ operation ++ " " ++ found.name ++ " as " ++ wanted.name
  | notNumber operation found => "Cannot " ++ operation ++ " " ++ found.name
  | notAddable operand sum => "Cannot add " ++ operand.name ++ " to " ++ sum.name
  | notIndexable found => "Cannot index into " ++ found.name
  | notCallable name => "Variable " ++ quoted name ++ " is not a function."
  | wrongArgument native wanted found =>
    native.name ++ " accepts " ++ wanted.name ++ ", found " ++ found.name ++ "."
  | noLength found =>
    Native.length.name ++ " accepts " ++ Kind.string.name ++ " or " ++ Kind.array.name ++
      ", found " ++ found.name ++ "."
  | notMapping found => Native.map.name ++ " needs a function, found " ++ found.name ++ "."
  | wrongCount callee arity count =>
    "Function " ++ quoted callee ++ " expected " ++ arity.describe ++ " params, received " ++
      decimal count ++ "."
  | wrongOperands operator count =>
    let arity := operator.arity
    if count < arity.least then
      quoted operator.spelling ++ " needs at least " ++ decimal arity.least ++
        " argument(s), got " ++ decimal count ++ "."
    else
      quoted operator.spelling ++ " takes at most " ++ decimal (arity.most.getD count) ++
        " argument(s), got " ++ decimal count ++ "."
  | noVariable name => "Variable " ++ quoted name ++ " does not exist in current scope."
  | noTarget name => "Variable " ++ quoted name ++ " does not exist in scope."
  | noFunction name => "Unknown function " ++ quoted name
  | redeclared name => "Variable " ++ quoted name ++ " already declared."
  | immutable name => "Variable " ++ quoted name ++ " is immutable."
  | outOfRange index length =>
    "Index " ++ decimal index ++ " out of range for length " ++ decimal length
  | divisionByZero => "Division by zero"
  | endOfInput => "readline reached the end of input"

end Fault

/-- A fault and the place that is blamed for it. -/
structure EvalError where
  fault : Fault
  position : Option Position := none

namespace EvalError

def kind (e : EvalError) : FaultKind := e.fault.kind

def message (e : EvalError) : String := e.fault.message

end EvalError

/-- Why a computation has no result. -/
inductive Failure
  | error (e : EvalError)
  /-- A string with a surrogate was to be compared. -/
  | unencodable
  /-- The computation is nested deeper, or repeats itself more often, than its limits allow. -/
  | exhausted

namespace Failure

/-- The failure with a fault, nothing being blamed yet. -/
def ofFault (f : Fault) : Failure := .error { fault := f }

/-- Blames a place for an error that has none. -/
def blame (place : Position) : Failure → Failure
  | .error e => .error { e with position := some (e.position.getD place) }
  | failure => failure

/-- Whether the computation failed for want of more input. -/
def isStarved : Failure → Bool
  | .error e => e.kind = .endOfInput
  | _ => false

end Failure

end SmallLisp
