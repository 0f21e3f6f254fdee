import SmallLisp.Expr

/-!
# Reading expressions

The reader is a pushdown machine that takes one token a step and looks at no other. Its
configuration is a focus, which says what may come next, and the stack of the forms that are open
around it, each waiting for one of its parts. A token either leads to the next configuration, or
completes the whole expression, or is refused: every refusal names what was expected instead.

A `Parser` runs the machine over what the scanner finds. A refused token stays in the lookahead
buffer unless the form had already taken it.
-/

set_option autoImplicit false

namespace SmallLisp

/-- A token that does not fit the grammar. The note, where there is one, is the whole message. -/
structure SyntaxError where
  expected : String
  found : Token
  note : Option String := none
deriving DecidableEq, Repr

namespace SyntaxError

def message (e : SyntaxError) : String :=
  e.note.getD ("expected " ++ e.expected ++ ", got " ++ e.found.text)

def position (e : SyntaxError) : Position := e.found.position

end SyntaxError

/-- Why a text is no program. -/
inductive ParseError
  | lexical (e : LexicalError)
  | grammar (e : SyntaxError)
deriving Repr

/-- The two forms that start with a name. -/
inductive Binder
  | declare | assign
deriving DecidableEq, Repr

/-- The names of some parameters that were kept newest first. -/
def names (params : List (String × Position)) : List String := params.reverse.map (·.1)

/-- A form that waits for one of its parts. The parts before it are kept, lists newest first. -/
inductive Context
  | argument (callee : Callee) (done : List Expr) (pos : Position)
  | functionBody (params : List (String × Position)) (pos : Position)
  | ifCondition (pos : Position)
  | ifBranch (cond : Expr) (pos : Position)
  | ifAlternative (cond yes : Expr) (pos : Position)
  | initializer (x : String) (pos : Position)
  | assigned (x : String) (pos : Position)
  | whileCondition (pos : Position)
  | whileBody (cond : Expr) (pos : Position)
  | forInit (pos : Position)
  | forCondition (init : Expr) (pos : Position)
  | forPost (init cond : Expr) (pos : Position)
  | forBody (init cond post : Expr) (pos : Position)

/-- What may come next. -/
inductive Focus
  /-- An expression. -/
  | operand (expected : String)
  /-- What follows an opening parenthesis. -/
  | head (pos : Position)
  /-- An argument, or the end of the call. -/
  | argument (callee : Callee) (done : List Expr) (pos : Position)
  /-- A parameter, or the body. If the parameters run up to the end, the last is the body. -/
  | parameter (params : List (String × Position)) (pos : Position)
  /-- The name that a form binds. -/
  | binder (form : Binder) (pos : Position)
  /-- The initial value of a variable, or the end of its declaration. -/
  | initializer (x : String) (pos : Position)
  /-- The false branch, or the end of the `if`. -/
  | alternative (cond yes : Expr) (pos : Position)
  /-- The end of a form that has all its parts. -/
  | closing (e : Expr) (expected : String) (note : Option String)

/-- A focus and the open forms around it, the innermost first. -/
structure Configuration where
  focus : Focus
  outer : List Context

/-- Where a token leads. -/
inductive Progress
  | reading (c : Configuration)
  | done (e : Expr)

namespace Focus

/-- What the focus admits, said in view of what is there instead. -/
def expected (f : Focus) (found : Lexeme) : String :=
  match f with
  | operand expected => expected
  | head _ => "function name"
  | argument .. => if found = .eof then "')' or value" else "function argument"
  | parameter .. => "function body"
  | binder .declare _ => "name for variable declaration"
  | binder .assign _ => "name for variable assignment"
  | initializer .. => "variable value"
  | alternative .. => if found = .eof then "expression or ')'" else "IF false branch"
  | closing _ expected _ => expected

/-- The complaint about a token that the focus does not admit. -/
def refusal (f : Focus) (t : Token) : SyntaxError where
  expected := f.expected t.lexeme
  found := t
  note :=
    match f with
    | closing _ _ note => note
    | _ => none

/-- Whether a refused token counts as read. -/
def takesRefused : Focus → Bool
  | head _ | binder .. | closing .. => true
  | _ => false

/-- The end of an `if` that has both branches. -/
def closingIf (e : Expr) : Focus :=
  closing e "')'"
    (some "IF may only contain a condition, true branch, and optional false branch")

end Focus

namespace Context

/-- Puts an expression into the place that the form keeps for it. -/
def resume (ctx : Context) (e : Expr) (outer : List Context) : Configuration :=
  match ctx with
  | argument callee done pos => ⟨.argument callee (e :: done) pos, outer⟩
  | functionBody params pos =>
    ⟨.closing (.function (names params) e pos) "')' after function body" none, outer⟩
  | ifCondition pos => ⟨.operand "IF true branch", ifBranch e pos :: outer⟩
  | ifBranch cond pos => ⟨.alternative cond e pos, outer⟩
  | ifAlternative cond yes pos => ⟨.closingIf (.ifThenElse cond yes e pos), outer⟩
  | initializer x pos => ⟨.closing (.declareAs x e pos) "')' after variable value" none, outer⟩
  | assigned x pos => ⟨.closing (.assign x e pos) "')' after variable value" none, outer⟩
  | whileCondition pos => ⟨.operand "while body", whileBody e pos :: outer⟩
  | whileBody cond pos => ⟨.closing (.whileLoop cond e pos) "')' after while body" none, outer⟩
  | forInit pos => ⟨.operand "FOR condition", forCondition e pos :: outer⟩
  | forCondition init pos => ⟨.operand "FOR post", forPost init e pos :: outer⟩
  | forPost init cond pos => ⟨.operand "FOR body", forBody init cond e pos :: outer⟩
  | forBody init cond post pos =>
    ⟨.closing (.forLoop init cond post e pos) "')' after FOR body" none, outer⟩

end Context

namespace Progress

/-- An expression is complete: it goes to the innermost open form, if there is one. -/
def complete (e : Expr) : List Context → Progress
  | [] => .done e
  | ctx :: outer => .reading (ctx.resume e outer)

end Progress

/-- The expression that one token is. -/
def Expr.ofToken? (t : Token) : Option Expr :=
  match t.lexeme with
  | .ident x => some (.name x t.position)
  | l => (Literal.ofLexeme? l).map fun l => .literal l t.position

namespace Configuration

/-- Before an expression that nothing surrounds. -/
def start (expected : String) : Configuration := ⟨.operand expected, []⟩

/-- Takes a token as the first of an expression. -/
def enter (outer : List Context) (t : Token) : Option Progress :=
  if t.lexeme = .punct .openParen then some (.reading ⟨.head t.position, outer⟩)
  else (Expr.ofToken? t).map fun e => .complete e outer

/-- Takes a token as the one behind an opening parenthesis. -/
def enterForm (opened : Position) (outer : List Context) (t : Token) : Option Progress :=
  let pos := t.position
  match t.lexeme with
  | .punct .closeParen => some (.complete (.unit opened) outer)
  | .keyword .ifWord => some (.reading ⟨.operand "condition", .ifCondition pos :: outer⟩)
  | .keyword .functionWord => some (.reading ⟨.parameter [] pos, outer⟩)
  | .keyword .letWord => some (.reading ⟨.binder .declare pos, outer⟩)
  | .punct .assign => some (.reading ⟨.binder .assign pos, outer⟩)
  | .keyword .whileWord =>
    some (.reading ⟨.operand "while condition", .whileCondition pos :: outer⟩)
  | .keyword .forWord => some (.reading ⟨.operand "FOR init", .forInit pos :: outer⟩)
  | l => (Callee.ofLexeme? l).map fun callee => .reading ⟨.argument callee [] pos, outer⟩

/-- Takes a token as the end of a form, or else as the first of its next part. -/
@[inline] def closeOr (e : Expr) (ctx : Context) (outer : List Context) (t : Token) : Option Progress :=
  if t.lexeme = .punct .closeParen then some (.complete e outer) else enter (ctx :: outer) t

/-- Where a token leads; none if it is refused. -/
def step (c : Configuration) (t : Token) : Option Progress :=
  let outer := c.outer
  match c.focus with
  | .operand _ => enter outer t
  | .head pos => enterForm pos outer t
  | .argument callee done pos =>
    closeOr (.call callee done.reverse pos) (.argument callee done pos) outer t
  | .parameter params pos =>
    match t.lexeme, params with
    | .ident x, _ => some (.reading ⟨.parameter ((x, t.position) :: params) pos, outer⟩)
    | .punct .closeParen, (x, xpos) :: params =>
      some (.complete (.function (names params) (.name x xpos) pos) outer)
    | _, _ => enter (.functionBody params pos :: outer) t
  | .binder form pos =>
    match t.lexeme, form with
    | .ident x, .declare => some (.reading ⟨.initializer x pos, outer⟩)
    | .ident x, .assign =>
      some (.reading ⟨.operand "variable value", .assigned x pos :: outer⟩)
    | _, _ => none
  | .initializer x pos => closeOr (.declare x pos) (.initializer x pos) outer t
  | .alternative cond yes pos =>
    closeOr (.ifThen cond yes pos) (.ifAlternative cond yes pos) outer t
  | .closing e _ _ => if t.lexeme = .punct .closeParen then some (.complete e outer) else none

end Configuration

/-- A reader in the midst of a text: the token that was looked at and not yet taken, what the
scanner will find next, and the end that it finds ever after. -/
structure Parser where
  peeked : Option Token
  ahead : List Scanned
  eof : Token

namespace Parser

/-- The reader in front of a text. -/
def start (text : List Char) : Parser where
  peeked := none
  ahead := (Cursor.start text).results
  eof := ⟨.eof, Position.start.through text⟩

/-- The next token, which stays in the buffer. A lexical fault is passed over when it is reported,
and leaves the buffer empty. -/
def peek (p : Parser) : Except LexicalError Token × Parser :=
  match p.peeked, p.ahead with
  | some t, _ => (.ok t, p)
  | none, [] => (.ok p.eof, { p with peeked := some p.eof })
  | none, .ok t :: rest => (.ok t, { p with peeked := some t, ahead := rest })
  | none, .error e :: rest => (.error e, { p with ahead := rest })

/-- The next token, which is removed. -/
def take (p : Parser) : Except LexicalError Token × Parser :=
  match p.peek with
  | (.ok t, p) => (.ok t, { p with peeked := none })
  | failed => failed

/-- The next token, which is removed if it is of this kind; none if it is of another. -/
def takeIf (p : Parser) (kind : TokenKind) : Except LexicalError (Option Token) × Parser :=
  match p.peek with
  | (.ok t, p) => if t.kind = kind then (.ok (some t), { p with peeked := none }) else (.ok none, p)
  | (.error e, p) => (.error e, p)

/-- The next token, which must be of this kind. It is removed in either case. -/
def expect (p : Parser) (kind : TokenKind) (expected : String) :
    Except ParseError Token × Parser :=
  match p.take with
  | (.ok t, p) => (if t.kind = kind then .ok t else .error (.grammar { expected, found := t }), p)
  | (.error e, p) => (.error (.lexical e), p)

/-- What comes next: the buffered token, then what the scanner will find. -/
def upcoming (p : Parser) : List Scanned := (p.peeked.map Except.ok).toList ++ p.ahead

/-- The failure on a token that the focus refuses, with this much behind it. -/
def refuse {α : Type} (focus : Focus) (t : Token) (ahead : List Scanned) (eof : Token) :
    Except ParseError α × Parser :=
  (.error (.grammar (focus.refusal t)),
    ⟨if focus.takesRefused then none else some t, ahead, eof⟩)

/-- Runs the machine until the expression is complete. -/
def finish (eof : Token) (c : Configuration) : List Scanned → Except ParseError Expr × Parser
  | [] => refuse c.focus eof [] eof
  | .error e :: rest => (.error (.lexical e), ⟨none, rest, eof⟩)
  | .ok t :: rest =>
    match c.step t with
    | none => refuse c.focus t rest eof
    | some (.done e) => (.ok e, ⟨none, rest, eof⟩)
    | some (.reading c) => finish eof c rest

/-- Reads one expression and nothing behind it. -/
def expression (p : Parser) (expected : String) : Except ParseError Expr × Parser :=
  finish p.eof (.start expected) p.upcoming

/-- Reads expressions up to the end of the text. `done` are the expressions read so far, newest
first, and `current` is the configuration within the next one, if it has begun. -/
def finishAll (eof : Token) (done : List Expr) (current : Option Configuration) :
    List Scanned → Except ParseError (List Expr) × Parser
  | [] =>
    match current with
    | none => (.ok done.reverse, ⟨some eof, [], eof⟩)
    | some c => refuse c.focus eof [] eof
  | .error e :: rest => (.error (.lexical e), ⟨none, rest, eof⟩)
  | .ok t :: rest =>
    if current.isNone ∧ t.isEof then (.ok done.reverse, ⟨some t, rest, eof⟩)
    else
      let c := current.getD (.start "expression")
      match c.step t with
      | none => refuse c.focus t rest eof
      | some (.done e) => finishAll eof (e :: done) none rest
      | some (.reading c) => finishAll eof done (some c) rest

/-- Reads all that is left as a program. Its end stays in the buffer. -/
def program (p : Parser) : Except ParseError Program × Parser :=
  match p.peek with
  | (.error e, p) => (.error (.lexical e), p)
  | (.ok first, p) =>
    match finishAll p.eof [] none p.upcoming with
    | (.ok exprs, p) => (.ok ⟨first.position, exprs⟩, p)
    | (.error e, p) => (.error e, p)

end Parser

/-- Reads a text as a program. -/
def Program.parse (text : List Char) : Except ParseError Program := (Parser.start text).program.1

end SmallLisp
