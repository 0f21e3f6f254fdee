import SmallLisp.Text.Decimal

/-!
# Lexemes

What the words of a program are: operators and parentheses, keywords, integers, identifiers and
string literals, and the end of the text. `TokenKind` is a lexeme without its content; each kind has
a name, and the fixed ones have a spelling.
-/

set_option autoImplicit false

namespace SmallLisp

/-- A lexeme of one or two characters that are no letters. -/
inductive Punct
  | openParen | closeParen | plus | minus | star | slash | assign | atSign | dot
  | equal | notEqual | less | lessEqual | greater | greaterEqual | bang
deriving DecidableEq, Repr

namespace Punct

def all : List Punct :=
  [openParen, closeParen, plus, minus, star, slash, assign, atSign, dot,
   equal, notEqual, less, lessEqual, greater, greaterEqual, bang]

/-- How it is written in a program. -/
def spelling : Punct → String
  | openParen => "("
  | closeParen => ")"
  | plus => "+"
  | minus => "-"
  | star => "*"
  | slash => "/"
  | assign => "="
  | atSign => "@"
  | dot => "."
  | equal => "=="
  | notEqual => "!="
  | less => "<"
  | lessEqual => "<="
  | greater => ">"
  | greaterEqual => ">="
  | bang => "!"

/-- What messages call it. -/
def name : Punct → String
  | openParen => "LPAREN"
  | closeParen => "RPAREN"
  | plus => "PLUS"
  | minus => "MINUS"
  | star => "STAR"
  | slash => "SLASH"
  | assign => "EQUALS"
  | atSign => "AT"
  | dot => "DOT"
  | equal => "EQ"
  | notEqual => "NE"
  | less => "LT"
  | lessEqual => "LE"
  | greater => "GT"
  | greaterEqual => "GE"
  | bang => "BANG"

/-- The operator that this character is on its own. -/
def ofChar? : Char → Option Punct
  | '(' => some openParen
  | ')' => some closeParen
  | '+' => some plus
  | '-' => some minus
  | '*' => some star
  | '/' => some slash
  | '=' => some assign
  | '@' => some atSign
  | '.' => some dot
  | '<' => some less
  | '>' => some greater
  | '!' => some bang
  | _ => none

/-- The operator that this one becomes when an equals sign follows it at once. -/
def withEquals? : Punct → Option Punct
  | assign => some equal
  | bang => some notEqual
  | less => some lessEqual
  | greater => some greaterEqual
  | _ => none

end Punct

/-- A reserved word. -/
inductive Keyword
  | letWord | ifWord | trueWord | falseWord | evalWord | functionWord | whileWord | forWord
deriving DecidableEq, Repr

namespace Keyword

def all : List Keyword :=
  [letWord, ifWord, trueWord, falseWord, evalWord, functionWord, whileWord, forWord]

/-- How it is written in a program. -/
def spelling : Keyword → String
  | letWord => "let"
  | ifWord => "if"
  | trueWord => "true"
  | falseWord => "false"
  | evalWord => "eval"
  | functionWord => "function"
  | whileWord => "while"
  | forWord => "for"

/-- What messages call it. -/
def name : Keyword → String
  | letWord => "LET"
  | ifWord => "IF"
  | trueWord => "TRUE"
  | falseWord => "FALSE"
  | evalWord => "EVAL"
  | functionWord => "FUNCTION"
  | whileWord => "WHILE"
  | forWord => "FOR"

/-- The keyword spelled so. -/
def ofSpelling? (word : String) : Option Keyword := all.find? (·.spelling == word)

end Keyword

/-- What sort of lexeme a token is. -/
inductive TokenKind
  | eof
  | punct (p : Punct)
  | keyword (k : Keyword)
  | int
  | ident
  | string
deriving DecidableEq, Repr

namespace TokenKind

def all : List TokenKind :=
  [eof] ++ Punct.all.map punct ++ Keyword.all.map keyword ++ [int, ident, string]

/-- What all listed kinds have, every kind has. -/
theorem forall_of_all {P : TokenKind → Prop} (h : ∀ k ∈ all, P k) (k : TokenKind) : P k := by
  refine h k ?_
  cases k with
  | punct p => cases p <;> decide
  | keyword w => cases w <;> decide
  | _ => decide

/-- What messages call the kind. -/
def name : TokenKind → String
  | eof => "EOF"
  | punct p => p.name
  | keyword k => k.name
  | int => "INT"
  | ident => "IDENT"
  | string => "STRING"

/-- The kind of this name. -/
def ofName? (name : String) : Option TokenKind := all.find? (·.name == name)

/-- The one way to write a lexeme of this kind, if there is just one. -/
def spelling? : TokenKind → Option String
  | punct p => some p.spelling
  | keyword k => some k.spelling
  | _ => none

end TokenKind

/-- A word of a program with its content. -/
inductive Lexeme
  | eof
  | punct (p : Punct)
  | keyword (k : Keyword)
  | int (n : Int)
  | ident (name : String)
  | string (content : String)
deriving DecidableEq, Repr

namespace Lexeme

def kind : Lexeme → TokenKind
  | eof => .eof
  | punct p => .punct p
  | keyword k => .keyword k
  | int _ => .int
  | ident _ => .ident
  | string _ => .string

/-- How messages mention the lexeme: its kind, then its content or its spelling, unescaped. -/
def text : Lexeme → String
  | eof => TokenKind.eof.name
  | int n => TokenKind.int.name ++ " " ++ decimal n
  | ident name => TokenKind.ident.name ++ " '" ++ name ++ "'"
  | string content => TokenKind.string.name ++ " '" ++ content ++ "'"
  | punct p => p.name ++ " '" ++ p.spelling ++ "'"
  | keyword k => k.name ++ " '" ++ k.spelling ++ "'"

end Lexeme

end SmallLisp
