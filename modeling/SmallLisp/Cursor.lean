import SmallLisp.Lexeme.Read
import SmallLisp.Position

/-!
# Tokens and the cursor

A token is a lexeme with the position where it starts. A cursor is a place in a program text with
the text that follows it; `Cursor.next` skips layout and reads one token, or reports why there is
none, and yields the cursor behind what it read. The end of the text is a token like others, and is
read again by every later call.
-/

set_option autoImplicit false

namespace SmallLisp

/-- A lexeme and where it starts. -/
structure Token where
  lexeme : Lexeme
  position : Position
deriving DecidableEq, Repr

namespace Token

def kind (t : Token) : TokenKind := t.lexeme.kind

/-- How messages mention the token. -/
def text (t : Token) : String := t.lexeme.text

def isEof (t : Token) : Bool := t.kind = .eof

theorem isEof_iff {t : Token} : t.isEof = true ↔ t.lexeme = .eof := by
  obtain ⟨x, pos⟩ := t
  cases x <;> simp [isEof, kind, Lexeme.kind]

end Token

/-- A fault in the words of a program, and where it was noticed. -/
structure LexicalError where
  fault : LexicalFault
  position : Position
deriving DecidableEq, Repr

namespace LexicalError

def message (e : LexicalError) : String := e.fault.message

end LexicalError

/-- What one call of `Cursor.next` finds. -/
abbrev Scanned := Except LexicalError Token

/-- A place in a program text, and what follows it. -/
structure Cursor where
  rest : List Char
  position : Position

namespace Cursor

/-- The cursor in front of a whole text. -/
def start (text : List Char) : Cursor := ⟨text, .start⟩

/-- The cursor so many characters further on. -/
def advance (c : Cursor) (width : Nat) : Cursor :=
  ⟨c.rest.drop width, c.position.through (c.rest.take width)⟩

/-- The cursor behind the blanks and comments that stand here. -/
def skipLayout (c : Cursor) : Cursor := c.advance (layoutWidth false c.rest)

/-- A character that begins no lexeme is blamed where it stands; all other faults are noticed where
the reading stopped. -/
def blame (fault : LexicalFault) (start stop : Position) : LexicalError :=
  match fault with
  | .stray _ => ⟨fault, start⟩
  | _ => ⟨fault, stop⟩

/-- Reads the next token. The cursor moves over what was read, also when it is at fault. -/
def next (c : Cursor) : Scanned × Cursor :=
  let start := c.skipLayout
  let reading := Lexeme.read start.rest
  let stop := start.advance reading.width
  match reading.outcome with
  | .ok lexeme => (.ok ⟨lexeme, start.position⟩, stop)
  | .error fault => (.error (blame fault start.position stop.position), stop)

/-- Whether a call found the end of the text. -/
def isEnd : Scanned → Bool
  | .ok t => t.isEof
  | .error _ => false

/-- What the next calls find, up to and including the end of the text, in at most so many calls. -/
def scan : Nat → Cursor → List Scanned
  | 0, _ => []
  | calls + 1, c =>
    let (found, after) := c.next
    if isEnd found then [found] else found :: scan calls after

/-- All that stands behind the cursor: tokens and faults, up to and including the end of the text.
Every call before that moves the cursor, so there are at most as many as characters. -/
def results (c : Cursor) : List Scanned := scan (c.rest.length + 1) c

/-- What so many calls find, and where each leaves the cursor. -/
def trace : Nat → Cursor → List (Scanned × Position)
  | 0, _ => []
  | calls + 1, c =>
    let (found, after) := c.next
    (found, after.position) :: trace calls after

end Cursor

/-- The tokens of a text up to and including its end, or those before the first fault with the
fault. -/
def tokenize (text : List Char) : List Token × Option LexicalError :=
  collect (Cursor.start text).results
where
  collect : List Scanned → List Token × Option LexicalError
    | [] => ([], none)
    | .error e :: _ => ([], some e)
    | .ok t :: rest => let (tokens, e) := collect rest; (t :: tokens, e)

end SmallLisp
