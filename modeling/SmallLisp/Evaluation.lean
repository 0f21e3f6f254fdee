import SmallLisp.Console
import SmallLisp.Scope
import SmallLisp.Text.Numeral
import SmallLisp.Value.Arithmetic
import SmallLisp.Value.Order

/-!
# Evaluation

Every expression is evaluated in a fresh frame within the frame of the construct around it, which is
thrown away afterwards. The forms that bind names therefore reach one frame out. A function captures
nothing: its body sees the frames of its caller, with one more frame for the parameters.

An error without a place is blamed on the innermost expression that is being evaluated. Whatever was
declared, assigned, read and written before a failure stays so.

An `Evaluator` evaluates expressions and calls functions nested up to some depth. `Evaluator.next`
adds one level; it recurses only through the level below, so what holds of one level given the one
below holds of all. A loop goes round a limited number of times. Whoever starts a run chooses both
limits, and to go beyond them is a failure of its own.
-/

set_option autoImplicit false

namespace SmallLisp

/-- What an evaluation changes. -/
structure Machine where
  scope : Scope
  console : Console

/-- A computation on the machine. A failure leaves the machine as it was when it failed. -/
abbrev Eval := EStateM Failure Machine

namespace Eval

/-- A result, or the fault that there is instead, blamed on nothing yet. -/
def ofFault {α : Type} : Except Fault α → Eval α
  | .ok a => pure a
  | .error f => throw (.ofFault f)

/-- A result, or the failure that there is instead. -/
def ofExcept {α : Type} : Except Failure α → Eval α
  | .ok a => pure a
  | .error failure => throw failure

/-- Runs a computation in a fresh frame, which is thrown away afterwards. -/
def inChild {α : Type} (x : Eval α) : Eval α := fun m =>
  match x { m with scope := m.scope.child } with
  | .ok a m => .ok a { m with scope := m.scope.enclosing }
  | .error e m => .error e { m with scope := m.scope.enclosing }

/-- Blames a place for the errors of a computation that have none. -/
def blaming {α : Type} (place : Position) (x : Eval α) : Eval α := fun m =>
  match x m with
  | .ok a m => .ok a m
  | .error failure m => .error (failure.blame place) m

def scope : Eval Scope := fun m => .ok m.scope m

/-- Declares a variable in the frame so far out. -/
def declare (hops : Nat) (x : String) (v : Value) : Eval Unit := fun m =>
  match m.scope.declare hops x v with
  | .ok s => .ok () { m with scope := s }
  | .error f => .error (.ofFault f) m

/-- Writes a variable of the frame so far out. -/
def write (hops : Nat) (x : String) (v : Value) : Eval Unit := fun m =>
  .ok () { m with scope := m.scope.write hops x v }

def echo (t : Text) : Eval Unit := fun m => .ok () { m with console := m.console.echo t }

def readLine : Eval Text := fun m =>
  match m.console.readLine? with
  | some (line, console) => .ok line { m with console }
  | none => .error (.ofFault .endOfInput) m

/-- Repeats a body as long as a condition holds, so many times at most. -/
def repeatWhile (cond : Eval Bool) (body : Eval Unit) : Nat → Eval Unit
  | 0 => throw .exhausted
  | rounds + 1 => do
    if ← cond then
      body
      repeatWhile cond body rounds

end Eval

/-- The value of a literal. -/
def Literal.value : Literal → Value
  | .int n => .int n
  | .string content => .string (Text.ofString content)
  | .bool b => .bool b

/-- Evaluates expressions and calls functions, up to some depth of nesting. -/
structure Evaluator where
  visit : Expr → Eval Value
  call : Callable → List Value → Eval Value

namespace Native

/-- The texts of some values with spaces between them. -/
def joined (args : List Value) : Text :=
  List.intercalate (Text.ofString " ") (args.map Value.render)

/-- The items of an argument that must be an array. -/
def items (f : Native) : Value → Except Fault (List Value)
  | .array items _ => .ok items
  | v => .error (.wrongArgument f .array v.kind)

/-- What an argument that must be a function calls. -/
def mapping (v : Value) : Except Fault Callable :=
  match v.callable? with
  | some callable => .ok callable
  | none => .error (.notMapping v.kind)

/-- Does what a native function does, given how functions are called. -/
def perform (call : Callable → List Value → Eval Value) (f : Native) (args : List Value) :
    Eval Value :=
  match f, args with
  | print, args => do
    Eval.echo (joined args)
    return .unit
  | println, args => do
    Eval.echo (joined args ++ Text.ofString "\n")
    return .unit
  | readline, [] => do return .string (← Eval.readLine)
  | parseint, [v] =>
    match v with
    | .string t _ => return .int t.leadingInteger
    | v => throw (.ofFault (.wrongArgument parseint .string v.kind))
  | append, v :: more@(_ :: _) => do return .array ((← Eval.ofFault (items append v)) ++ more)
  | length, [v] =>
    match v with
    | .string t _ => return .int t.length
    | .array items _ => return .int items.length
    | v => throw (.ofFault (.noLength v.kind))
  | map, [v, fn] => do
    let items ← Eval.ofFault (items map v)
    let callable ← Eval.ofFault (mapping fn)
    return .array (← items.mapM fun item => call callable [item])
  | int, [v] => Eval.ofFault (v.require .int "convert")
  | char, [v] => Eval.ofFault (v.require .char "convert")
  | string, [v] => Eval.ofFault (v.require .string "convert")
  | bool, [v] => Eval.ofFault (v.require .bool "convert")
  | f, args => throw (.ofFault (.wrongCount f.name f.arity args.length))

end Native

namespace Evaluator

/-- Refuses to call with a number of arguments that the callee does not accept. -/
def checkCount (name : String) (arity : Arity) (count : Nat) : Eval Unit :=
  if arity.accepts count then pure ()
  else throw (.ofFault (.wrongCount name arity count))

variable (lower : Evaluator)

/-- Evaluates an expression in a fresh frame, and takes the blame for errors without a place. -/
def evaluate (e : Expr) : Eval Value := Eval.blaming e.position (Eval.inChild (lower.visit e))

/-- Evaluates an expression whose truth is asked for. -/
def test (e : Expr) : Eval Bool := do Eval.ofFault (← lower.evaluate e).truth

/-- Evaluates operands in order, combining each with what the ones before it came to. -/
def combine (op : Value → Value → Except Fault Value) (first : Value) (rest : List Expr) :
    Eval Value :=
  rest.foldlM (fun acc e => do Eval.ofFault (op acc (← lower.evaluate e))) first

/-- Applies an operator to its operands. -/
def operate (op : Operator) (operands : List Expr) : Eval Value :=
  match op, operands with
  | .add, operands@(_ :: _) => lower.combine Value.add .unit operands
  | .subtract, first :: rest@(_ :: _) => do
    lower.combine Value.subtract (← lower.evaluate first) rest
  | .multiply, operands => lower.combine Value.multiply (.int 1) operands
  | .divide, first :: rest@(_ :: _) => do
    lower.combine Value.divide (← lower.evaluate first) rest
  | .relation r, [left, right] => do
    let left ← lower.evaluate left
    let right ← lower.evaluate right
    Eval.ofExcept (left.relate r right)
  | .not, [operand] => do Eval.ofFault (← lower.evaluate operand).negate
  | .index, [subject, position] => do
    let subject ← lower.evaluate subject
    let position ← lower.evaluate position
    Eval.ofFault (subject.index position)
  | .array, operands => do return .array (← operands.mapM lower.evaluate)
  | .sequence, operands@(_ :: _) => operands.foldlM (fun _ e => lower.evaluate e) .unit
  | op, operands => throw (.ofFault (.wrongOperands op operands.length))

/-- Calls a function with values for its parameters. The body of a function is evaluated right in
the frame of the parameters, which lies within the frame of the caller. -/
def callNext (callee : Callable) (args : List Value) : Eval Value := do
  checkCount callee.label callee.arity args.length
  match callee with
  | .native f => f.perform lower.call args
  | .function params body =>
    Eval.inChild do
      (params.zip args).forM fun (x, v) => Eval.declare 0 x v
      lower.visit body

/-- Calls the function that a name stands for. -/
def callNamed (name : String) (args : List Expr) : Eval Value := do
  match (← Eval.scope).find? name with
  | none => throw (.ofFault (.noFunction name))
  | some (_, v) =>
    match v.callable? with
    | none => throw (.ofFault (.notCallable name))
    | some callee =>
      checkCount name callee.arity args.length
      lower.callNext callee (← args.mapM lower.evaluate)

/-- Whether a condition is left empty, which in a `for` means that it always holds. -/
def isEmptyCondition : Expr → Bool
  | .unit _ => true
  | _ => false

/-- Evaluates an expression right in the innermost frame. -/
def visitNext (rounds : Nat) : Expr → Eval Value
  | .literal l _ => return l.value
  | .name x _ => do Eval.ofFault ((← Eval.scope).lookup x)
  | .unit _ => return .unit
  | .call (.operator op) operands _ => lower.operate op operands
  | .call (.named name) args _ => lower.callNamed name args
  | .function params body _ => return .function params body
  | .ifThen cond yes _ => do
    if ← lower.test cond then lower.evaluate yes else return .unit
  | .ifThenElse cond yes no _ => do
    if ← lower.test cond then lower.evaluate yes else lower.evaluate no
  | .declare x _ => do
    Eval.declare (← Eval.scope).home x .unit
    return .unit
  | .declareAs x init _ => do
    let hops := (← Eval.scope).home
    Eval.declare hops x .unit
    Eval.write hops x (← lower.evaluate init)
    return .unit
  | .assign x value _ => do
    let s ← Eval.scope
    let hops ← Eval.ofFault (s.assignable s.home x)
    Eval.write hops x (← lower.evaluate value)
    return .unit
  | .whileLoop cond body _ => do
    Eval.repeatWhile (lower.test cond) (do discard <| lower.evaluate body) rounds
    return .unit
  | .forLoop init cond post body _ => do
    discard <| lower.evaluate init
    let holds := if isEmptyCondition cond then return true else lower.test cond
    Eval.repeatWhile holds (do discard <| lower.evaluate body; discard <| lower.evaluate post)
      rounds
    return .unit

/-- One more level of nesting. -/
def next (rounds : Nat) : Evaluator := ⟨lower.visitNext rounds, lower.callNext⟩

/-- The evaluator without any nesting. -/
def exhausted : Evaluator := ⟨fun _ => throw .exhausted, fun _ _ => throw .exhausted⟩

/-- The evaluator of this depth, each of whose loops goes round so many times at most. -/
def ofDepth (rounds : Nat) : Nat → Evaluator
  | 0 => exhausted
  | depth + 1 => (ofDepth rounds depth).next rounds

/-- Evaluates expressions in order; the value is that of the last, or unit if there is none. -/
def evaluateAll (es : List Expr) : Eval Value :=
  es.foldlM (fun _ e => lower.evaluate e) .unit

end Evaluator

/-- How far a run may go. -/
structure Limits where
  depth : Nat
  rounds : Nat

/-- Limits for everyday use. Each expression within another takes a level of depth, also across calls, so
a program that calls itself some thousand times may go beyond them although it would end. -/
def Limits.generous : Limits := ⟨3000, Nat.pow 2 62⟩

/-- The evaluator of a run. -/
def Limits.evaluator (limits : Limits) : Evaluator := .ofDepth limits.rounds limits.depth

/-- What a run comes to, and the machine afterwards. -/
abbrev Outcome := EStateM.Result Failure Machine

namespace Program

/-- The machine in front of a run, with the library and some text to read. -/
def freshMachine (input : Text) : Machine := ⟨.root .library, .reading input⟩

/-- Runs a program on a machine. -/
def run (limits : Limits) (p : Program) (m : Machine) : Outcome Value :=
  limits.evaluator.evaluateAll p.exprs m

end Program

end SmallLisp
