import SmallLisp.Parser

/-!
# Recursive descent

The grammar form by form: what follows the head of a form is read part by part, and each part that is an
expression by the same reader again. The scanner is called only when a token is asked for and none is
buffered. A `Reader` keeps a record of what the scanner has found and of the tokens that were taken.

A descent may nest and repeat so often as its fuel says, and gives up beyond that.
-/

set_option autoImplicit false

namespace SmallLisp

/-- A scanner with one token of lookahead, and a record of what has been done with the two. -/
structure Reader where
  cursor : Cursor
  peeked : Option Token
  /-- What the calls of the scanner have found, oldest first. -/
  scanned : List Scanned
  /-- The tokens that were taken, oldest first. -/
  taken : List Token

namespace Reader

/-- The reader in front of a text. -/
def start (text : List Char) : Reader := ⟨.start text, none, [], []⟩

/-- The reader after a call of the scanner. If it has found a token, this is buffered. -/
def scan (r : Reader) : Reader where
  cursor := r.cursor.next.2
  peeked := r.cursor.next.1.toOption
  scanned := r.scanned ++ [r.cursor.next.1]
  taken := r.taken

/-- The reader after its buffered token was taken. -/
def drop (r : Reader) : Reader := { r with peeked := none, taken := r.taken ++ r.peeked.toList }

end Reader

/-- Why a descent has no result. -/
inductive Halt
  | error (e : ParseError)
  /-- The text nests deeper or goes on longer than the fuel allows. -/
  | exhausted

/-- A computation of the reader. A failure leaves the reader as it was when it failed. -/
abbrev Descent := EStateM Halt Reader

namespace Descent

/-! ## Tokens -/

/-- The next token, which stays in the buffer. -/
def peek : Descent Token := fun r =>
  match r.peeked with
  | some t => .ok t r
  | none =>
    match r.cursor.next.1 with
    | .ok t => .ok t r.scan
    | .error e => .error (.error (.lexical e)) r.scan

/-- The next token, which is removed. -/
def take : Descent Token := do
  let t ← peek
  modify Reader.drop
  return t

/-- The next token, which is removed if it is of this kind; none if it is of another. -/
def takeIf (kind : TokenKind) : Descent (Option Token) := do
  let t ← peek
  if t.kind = kind then return some (← take) else return none

/-- The failure on a token. -/
def refuse {α : Type} (expected : String) (found : Token) (note : Option String := none) :
    Descent α :=
  throw (.error (.grammar { expected, found, note }))

/-- The next token, which must be of this kind. It is removed in either case. -/
def expect (kind : TokenKind) (expected : String) : Descent Token := do
  let t ← take
  if t.kind = kind then return t else refuse expected t

/-- The next token, which must be a name. It is removed in either case. -/
def expectName (expected : String) : Descent String := do
  let t ← take
  match t.lexeme with
  | .ident x => return x
  | _ => refuse expected t

/-! ## Forms -/

/-- Repeats a computation until it yields nothing, and collects what it has yielded; gives up if it has
yielded something so many times. -/
def collect {α : Type} (item : Descent (Option α)) : Nat → Descent (List α)
  | 0 => throw .exhausted
  | rounds + 1 => do
    match ← item with
    | none => return []
    | some a => return a :: (← collect item rounds)

/-- A parameter of a function, or else one name more than it has parameters; none if no name follows. -/
def parameter : Descent (Option (String × Position)) := do
  let t ← peek
  match t.lexeme with
  | .ident x => do
    let t ← take
    return some (x, t.position)
  | _ => return none

section
variable (inner : String → Descent Expr)

/-- An argument of a call; none at its end. -/
def argument : Descent (Option Expr) := do
  match ← takeIf (.punct .closeParen) with
  | some _ => return none
  | none =>
    let t ← peek
    if t.isEof then refuse "')' or value" t
    else return some (← inner "function argument")

/-- An expression of a program; none at the end of the text. -/
def item : Descent (Option Expr) := do
  let t ← peek
  if t.isEof then return none else return some (← inner "expression")

/-- The body of a function behind some names, and its parameters: if the names run right up to the end,
the last of them is the body. -/
def functionBody (names : List (String × Position)) :
    Descent (List (String × Position) × Expr) := do
  let t ← peek
  match names.getLast?, t.lexeme with
  | some (x, pos), .punct .closeParen => return (names.dropLast, .name x pos)
  | _, _ => return (names, ← inner "function body")

def ifForm (pos : Position) : Descent Expr := do
  let cond ← inner "condition"
  let yes ← inner "IF true branch"
  let t ← peek
  if t.isEof then refuse "expression or ')'" t
  else
    match ← takeIf (.punct .closeParen) with
    | some _ => return .ifThen cond yes pos
    | none =>
      let no ← inner "IF false branch"
      let t ← take
      if t.kind = .punct .closeParen then return .ifThenElse cond yes no pos
      else
        refuse "')'" t
          (some "IF may only contain a condition, true branch, and optional false branch")

def declareForm (pos : Position) : Descent Expr := do
  let x ← expectName "name for variable declaration"
  match ← takeIf (.punct .closeParen) with
  | some _ => return .declare x pos
  | none =>
    let init ← inner "variable value"
    let _ ← expect (.punct .closeParen) "')' after variable value"
    return .declareAs x init pos

def assignForm (pos : Position) : Descent Expr := do
  let x ← expectName "name for variable assignment"
  let value ← inner "variable value"
  let _ ← expect (.punct .closeParen) "')' after variable value"
  return .assign x value pos

def whileForm (pos : Position) : Descent Expr := do
  let cond ← inner "while condition"
  let body ← inner "while body"
  let _ ← expect (.punct .closeParen) "')' after while body"
  return .whileLoop cond body pos

def forForm (pos : Position) : Descent Expr := do
  let init ← inner "FOR init"
  let cond ← inner "FOR condition"
  let post ← inner "FOR post"
  let body ← inner "FOR body"
  let _ ← expect (.punct .closeParen) "')' after FOR body"
  return .forLoop init cond post body pos

variable (rounds : Nat)

def functionForm (pos : Position) : Descent Expr := do
  let names ← collect parameter rounds
  let (params, body) ← functionBody inner names
  let _ ← expect (.punct .closeParen) "')' after function body"
  return .function (params.map (·.1)) body pos

def callForm (callee : Callee) (pos : Position) : Descent Expr := do
  let args ← collect (argument inner) rounds
  return .call callee args pos

/-- The rest of a form behind its head. -/
def form (head : Token) : Descent Expr :=
  match head.lexeme with
  | .keyword .ifWord => ifForm inner head.position
  | .keyword .functionWord => functionForm inner rounds head.position
  | .keyword .letWord => declareForm inner head.position
  | .punct .assign => assignForm inner head.position
  | .keyword .whileWord => whileForm inner head.position
  | .keyword .forWord => forForm inner head.position
  | l =>
    match Callee.ofLexeme? l with
    | some callee => callForm inner rounds callee head.position
    | none => refuse "function name" head

/-- What follows an opening parenthesis. -/
def behindParen (opened : Position) : Descent Expr := do
  match ← takeIf (.punct .closeParen) with
  | some _ => return .unit opened
  | none =>
    let head ← take
    form inner rounds head

/-- A form from its opening parenthesis on. -/
def compound : Descent Expr := do
  let opened ← take
  behindParen inner rounds opened.position

/-- An expression whose parts are read by `inner`. -/
def expressionNext (expected : String) : Descent Expr := do
  let t ← peek
  if t.lexeme = .punct .openParen then compound inner rounds
  else
    match Expr.ofToken? t with
    | some e => do
      let _ ← take
      return e
    | none => refuse expected t

end

/-- Reads one expression and nothing behind it. -/
def expression : Nat → String → Descent Expr
  | 0 => fun _ => throw .exhausted
  | fuel + 1 => expressionNext (expression fuel) fuel

/-- Reads all that is left as a program. Its end stays in the buffer. -/
def program (fuel : Nat) : Descent Program := do
  let first ← peek
  let exprs ← collect (item (expression fuel)) fuel
  return ⟨first.position, exprs⟩

/-- What a descent comes to, and the reader that it leaves; none if it gives up. -/
def outcome {α : Type} (x : Descent α) (r : Reader) : Option (Except ParseError α × Reader) :=
  match x r with
  | .ok a s => some (.ok a, s)
  | .error (.error e) s => some (.error e, s)
  | .error .exhausted _ => none

end Descent

end SmallLisp
