import SmallLisp.Cursor

/-!
# Expressions

The abstract syntax of the language. Every node carries the position of the token that introduces
it: an atom its own token, `()` its opening parenthesis, a call its operator or name, and every
other form its keyword. A form with an optional part is two constructors, one with the part and one
without.
-/

set_option autoImplicit false

namespace SmallLisp

/-- A literal. -/
inductive Literal
  | int (n : Int)
  | string (content : String)
  | bool (b : Bool)
deriving DecidableEq, Repr

namespace Literal

/-- The lexeme that a literal is written as. -/
def lexeme : Literal → Lexeme
  | int n => .int n
  | string content => .string content
  | bool b => .keyword (if b then .trueWord else .falseWord)

def ofLexeme? : Lexeme → Option Literal
  | .int n => some (int n)
  | .string content => some (string content)
  | .keyword .trueWord => some (bool true)
  | .keyword .falseWord => some (bool false)
  | _ => none

@[simp] theorem ofLexeme?_lexeme (l : Literal) : ofLexeme? l.lexeme = some l := by
  cases l with
  | bool b => cases b <;> rfl
  | _ => rfl

end Literal

/-- A relation between two values that a program can ask for. -/
inductive Relation
  | equal | notEqual | less | lessEqual | greater | greaterEqual
deriving DecidableEq, Repr

/-- The operators: words in the head of a call that no program can bind. -/
inductive Operator
  | add | subtract | multiply | divide
  | relation (r : Relation)
  | not | index | array | sequence
deriving DecidableEq, Repr

namespace Operator

/-- The lexeme that an operator is written as. -/
def lexeme : Operator → Lexeme
  | add => .punct .plus
  | subtract => .punct .minus
  | multiply => .punct .star
  | divide => .punct .slash
  | relation .equal => .punct .equal
  | relation .notEqual => .punct .notEqual
  | relation .less => .punct .less
  | relation .lessEqual => .punct .lessEqual
  | relation .greater => .punct .greater
  | relation .greaterEqual => .punct .greaterEqual
  | not => .punct .bang
  | index => .punct .dot
  | array => .punct .atSign
  | sequence => .keyword .evalWord

def ofLexeme? : Lexeme → Option Operator
  | .punct .plus => some add
  | .punct .minus => some subtract
  | .punct .star => some multiply
  | .punct .slash => some divide
  | .punct .equal => some (relation .equal)
  | .punct .notEqual => some (relation .notEqual)
  | .punct .less => some (relation .less)
  | .punct .lessEqual => some (relation .lessEqual)
  | .punct .greater => some (relation .greater)
  | .punct .greaterEqual => some (relation .greaterEqual)
  | .punct .bang => some not
  | .punct .dot => some index
  | .punct .atSign => some array
  | .keyword .evalWord => some sequence
  | _ => none

@[simp] theorem ofLexeme?_lexeme (o : Operator) : ofLexeme? o.lexeme = some o := by
  cases o with
  | relation r => cases r <;> rfl
  | _ => rfl

/-- How an operator is written. -/
def spelling (o : Operator) : String := (o.lexeme.kind.spelling?).getD ""

end Operator

/-- What stands in the head of a call. -/
inductive Callee
  | operator (o : Operator)
  | named (name : String)
deriving DecidableEq, Repr

namespace Callee

/-- The lexeme that the head of a call is written as. -/
def lexeme : Callee → Lexeme
  | operator o => o.lexeme
  | named name => .ident name

def ofLexeme? : Lexeme → Option Callee
  | .ident name => some (named name)
  | l => (Operator.ofLexeme? l).map operator

@[simp] theorem ofLexeme?_lexeme (c : Callee) : ofLexeme? c.lexeme = some c := by
  cases c with
  | named name => rfl
  | operator o =>
    cases o with
    | relation r => cases r <;> rfl
    | _ => rfl

end Callee

/-- An expression with the positions of its nodes. -/
inductive Expr
  | literal (l : Literal) (pos : Position)
  | name (x : String) (pos : Position)
  | unit (pos : Position)
  | call (callee : Callee) (args : List Expr) (pos : Position)
  | function (params : List String) (body : Expr) (pos : Position)
  | ifThen (cond yes : Expr) (pos : Position)
  | ifThenElse (cond yes no : Expr) (pos : Position)
  | declare (x : String) (pos : Position)
  | declareAs (x : String) (init : Expr) (pos : Position)
  | assign (x : String) (value : Expr) (pos : Position)
  | whileLoop (cond body : Expr) (pos : Position)
  | forLoop (init cond post body : Expr) (pos : Position)
deriving Repr

namespace Expr

/-- The place of the token that introduces the node. -/
def position : Expr → Position
  | literal _ pos | name _ pos | unit pos | call _ _ pos | function _ _ pos | ifThen _ _ pos
  | ifThenElse _ _ _ pos | declare _ pos | declareAs _ _ pos | assign _ _ pos | whileLoop _ _ pos
  | forLoop _ _ _ _ pos => pos

/-- The parts of a node. The parts of a `for` come in the order of their writing: init, condition,
post, body. -/
def children : Expr → List Expr
  | literal _ _ | name _ _ | unit _ | declare _ _ => []
  | call _ args _ => args
  | function _ body _ => [body]
  | ifThen cond yes _ => [cond, yes]
  | ifThenElse cond yes no _ => [cond, yes, no]
  | declareAs _ init _ => [init]
  | assign _ value _ => [value]
  | whileLoop cond body _ => [cond, body]
  | forLoop init cond post body _ => [init, cond, post, body]

mutual

/-- All nodes of an expression in preorder, each with its depth; the expression is at this depth. -/
def preorder (depth : Nat) (e : Expr) : List (Nat × Expr) :=
  (depth, e) ::
    match e with
    | literal _ _ | name _ _ | unit _ | declare _ _ => []
    | call _ args _ => preorderAll (depth + 1) args
    | function _ body _ => body.preorder (depth + 1)
    | ifThen cond yes _ => cond.preorder (depth + 1) ++ yes.preorder (depth + 1)
    | ifThenElse cond yes no _ =>
      cond.preorder (depth + 1) ++ yes.preorder (depth + 1) ++ no.preorder (depth + 1)
    | declareAs _ init _ => init.preorder (depth + 1)
    | assign _ value _ => value.preorder (depth + 1)
    | whileLoop cond body _ => cond.preorder (depth + 1) ++ body.preorder (depth + 1)
    | forLoop init cond post body _ =>
      init.preorder (depth + 1) ++ cond.preorder (depth + 1) ++ post.preorder (depth + 1) ++
        body.preorder (depth + 1)

/-- All nodes of several expressions in preorder. -/
def preorderAll (depth : Nat) : List Expr → List (Nat × Expr)
  | [] => []
  | e :: es => e.preorder depth ++ preorderAll depth es

end

/-- The node alone on one line, its parts left out; none for `if`, `while` and `for`. -/
def brief? : Expr → Option String
  | literal l _ => some ("<Atom " ++ l.lexeme.text ++ ">")
  | name x _ => some ("<Atom " ++ (Lexeme.ident x).text ++ ">")
  | unit _ => some "<()>"
  | call callee args _ =>
    some ("<call " ++ callee.lexeme.text ++ "/" ++ decimal args.length ++ ">")
  | function params _ _ => some ("<function " ++ " ".intercalate params ++ ">")
  | declare x _ | declareAs x _ _ => some ("<let " ++ x ++ ">")
  | assign x _ _ => some ("<= " ++ x ++ ">")
  | ifThen .. | ifThenElse .. | whileLoop .. | forLoop .. => none

end Expr

/-- A program: its expressions in order, and the position of its first token. -/
structure Program where
  position : Position
  exprs : List Expr
deriving Repr

end SmallLisp
