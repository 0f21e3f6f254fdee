import SmallLisp.Lexeme
import SmallLisp.Text.Blank
import SmallLisp.Text.Alphanumeric
import SmallLisp.Text.Quoted

/-!
# Reading one lexeme

`layoutWidth` measures the blanks and comments at the head of a text, and `Lexeme.read` takes the
longest lexeme off the head of what follows. Both work on the characters alone; where they stand is
the concern of the cursor.

A reading says how many characters it covers, also when it fails: a failed reading covers at least
one, so that reading may go on behind it.
-/

set_option autoImplicit false

namespace SmallLisp

/-- How many characters an identifier may have. -/
def maxIdentLength : Nat := 255

/-- How the digits of a number are read. -/
inductive Radix
  | binary | decimal | hexadecimal
deriving DecidableEq, Repr

namespace Radix

def base : Radix → Nat
  | binary => 2
  | decimal => 10
  | hexadecimal => 16

/-- What is written in front of the digits. -/
def mark : Radix → List Char
  | binary => ['0', 'b']
  | decimal => []
  | hexadecimal => ['0', 'x']

/-- The value of a digit in this radix; only ASCII digits have one. -/
def digit? (r : Radix) (c : Char) : Option Nat :=
  let value? :=
    if '0' ≤ c ∧ c ≤ '9' then some (c.toNat - '0'.toNat)
    else if 'a' ≤ c ∧ c ≤ 'f' then some (c.toNat - 'a'.toNat + 10)
    else if 'A' ≤ c ∧ c ≤ 'F' then some (c.toNat - 'A'.toNat + 10)
    else none
  value?.filter (· < r.base)

def isDigit (r : Radix) (c : Char) : Bool := (r.digit? c).isSome

/-- The number that some digits denote, the most significant first. -/
def value (r : Radix) (digits : List Char) : Nat :=
  digits.foldl (fun n c => n * r.base + (r.digit? c).getD 0) 0

/-- The radix that the head of a number tells, by its mark. -/
def ofText : List Char → Radix
  | '0' :: 'x' :: _ => hexadecimal
  | '0' :: 'b' :: _ => binary
  | _ => decimal

end Radix

/-- Why no lexeme could be read. -/
inductive LexicalFault
  /-- The first character begins no lexeme. -/
  | stray (c : Char)
  /-- A letter or number character follows the digits of a number at once. -/
  | glued (c : Char)
  /-- The mark of a radix without digits. -/
  | noDigits (radix : Radix)
  /-- A string literal without its closing quote. -/
  | unclosed
  /-- A word of more characters than an identifier may have. -/
  | overlong
deriving DecidableEq, Repr

namespace LexicalFault

def message : LexicalFault → String
  | stray c => "Unexpected character " ++ Quoted.encode [c]
  | glued c => "Unexpected character " ++ Quoted.encode [c]
  | noDigits radix => "Expected digits after '" ++ String.ofList radix.mark ++ "'"
  | unclosed => "Expected string terminator, found EOF."
  | overlong => "Ident must be at most " ++ decimal maxIdentLength ++ " characters."

end LexicalFault

/-- What stands at the head of a text, and how many characters it covers. -/
structure Reading where
  outcome : Except LexicalFault Lexeme
  width : Nat

/-- How many characters at the head of a text are blanks or belong to comments. A comment runs from
a semicolon to the end of its line; `inComment` says that one has begun. -/
def layoutWidth (inComment : Bool) : List Char → Nat
  | [] => 0
  | c :: rest =>
    if inComment then layoutWidth (c ≠ '\n') rest + 1
    else if (CodePoint.ofChar c).isBlank then layoutWidth false rest + 1
    else if c = ';' then layoutWidth true rest + 1
    else 0

/-- An ASCII digit. -/
def isDigit (c : Char) : Bool := Radix.decimal.isDigit c

/-- A character that may begin a word: an ASCII letter or an underscore. -/
def isWordStart (c : Char) : Bool := c.isAlpha || c = '_'

/-- A character that may stand within a word. -/
def isWordChar (c : Char) : Bool := c.isAlphanum || c = '_'

/-- The character that a backslash in front of this one stands for. -/
def unescape : Char → Char
  | 'n' => '\n'
  | 't' => '\t'
  | 'r' => '\r'
  | '0' => '\x00'
  | c => c

/-- The content of a string literal from behind its opening quote on, and the width of what was
read, the closing quote included; none if the text ends first. -/
def readContent (quote : Char) : List Char → Option (List Char × Nat)
  | [] => none
  | c :: rest =>
    if c = quote then some ([], 1)
    else if c = '\\' then
      match rest with
      | [] => none
      | escaped :: rest =>
        (readContent quote rest).map fun (content, width) =>
          (unescape escaped :: content, width + 2)
    else (readContent quote rest).map fun (content, width) => (c :: content, width + 1)

/-- A character that may not stand right behind the digits of a number. -/
def isGlued (c : Char) : Bool := (CodePoint.ofChar c).isAlphanumeric

namespace Lexeme

/-- The lexeme that a word is. -/
def ofWord (word : List Char) : Lexeme :=
  let spelling := String.ofList word
  match Keyword.ofSpelling? spelling with
  | some k => .keyword k
  | none => .ident spelling

/-- Reads a number from behind its sign on. -/
def readNumber (negative : Bool) (cs : List Char) : Reading :=
  let radix := Radix.ofText cs
  let body := cs.drop radix.mark.length
  let digits := body.takeWhile radix.isDigit
  let width := (if negative then 1 else 0) + radix.mark.length + digits.length
  match (body.dropWhile radix.isDigit).head?.filter isGlued with
  | some c => ⟨.error (.glued c), width⟩
  | none =>
    if digits.isEmpty then ⟨.error (.noDigits radix), width⟩
    else
      let n : Int := radix.value digits
      ⟨.ok (.int (if negative then -n else n)), width⟩

/-- Reads a string literal from behind its opening quote on. -/
def readString (quote : Char) (cs : List Char) : Reading :=
  match readContent quote cs with
  | some (content, width) => ⟨.ok (.string (String.ofList content)), width + 1⟩
  | none => ⟨.error .unclosed, cs.length + 1⟩

/-- Reads a keyword or an identifier. -/
def readWord (cs : List Char) : Reading :=
  let word := cs.takeWhile isWordChar
  if word.length ≤ maxIdentLength then ⟨.ok (ofWord word), word.length⟩
  else ⟨.error .overlong, maxIdentLength⟩

/-- Reads an operator of one or two characters. -/
def readPunct (p : Punct) (rest : List Char) : Reading :=
  match p.withEquals?, rest.head? with
  | some long, some '=' => ⟨.ok (.punct long), 2⟩
  | _, _ => ⟨.ok (.punct p), 1⟩

/-- Reads the longest lexeme at the head of a text that begins with neither a blank nor a comment.
A minus sign with a digit right behind it belongs to the number. -/
def read : List Char → Reading
  | [] => ⟨.ok .eof, 0⟩
  | c :: rest =>
    if c = '-' && rest.head?.any isDigit then readNumber true rest
    else if c = '\'' || c = '"' then readString c rest
    else if isDigit c then readNumber false (c :: rest)
    else if isWordStart c then readWord (c :: rest)
    else
      match Punct.ofChar? c with
      | some p => readPunct p rest
      | none => ⟨.error (.stray c), 1⟩

end Lexeme

end SmallLisp
