import SmallLisp.Position
import SmallLisp.Text.Blank

/-!
# Pictures of source lines

What a report may be drawn with: the line that a complaint is about, with its number in front and a
caret under the place. Here a line ends at a newline, a carriage return, or the two together; so lines
are counted anew from the offset, and may differ from those of a position.
-/

set_option autoImplicit false

namespace SmallLisp.Picture

/-- Puts a character in front of some lines, each of which keeps what ends it. -/
def addChar (c : Char) : List (List Char) → List (List Char)
  | [] => [[c]]
  | line :: more =>
    if c = '\n' || (c = '\r' && line.head? ≠ some '\n') then [c] :: line :: more
    else (c :: line) :: more

/-- The lines of a text, each with what ends it; the last has no end and may be empty. -/
def lines (text : List Char) : List (List Char) := text.foldr addChar [[]]

/-- The line that an offset falls on: its number counted from zero, the offset within it, and its
characters. An offset beyond the text falls on the last line. -/
def find (row offset : Nat) : List (List Char) → Nat × Nat × List Char
  | [] => (row, offset, [])
  | [line] => (row, offset, line)
  | line :: more =>
    if offset < line.length then (row, offset, line)
    else find (row + 1) (offset - line.length) more

/-- A text without the blanks at its end. -/
def trimEnd (cs : List Char) : List Char :=
  (cs.reverse.dropWhile fun c => (CodePoint.ofChar c).isBlank).reverse

/-- What stands in front of a line: its number, with a space in place of a sign, at least six
characters wide, and a bar. -/
def margin (number : Nat) : List Char :=
  let digits := ' ' :: decimalDigits number
  List.replicate (6 - digits.length) ' ' ++ digits ++ [' ', '|']

/-- As much blank space as some text takes up; tabs stay tabs. -/
def blanks (cs : List Char) : List Char := cs.map fun c => if c = '\t' then c else ' '

/-- The line around an offset with a caret under the place, and the caption behind the caret. -/
def draw (text : List Char) (offset : Nat) (caption : String) : String :=
  let (row, column, line) := find 0 offset (lines text)
  let margin := margin (row + 1)
  String.ofList (margin ++ trimEnd line ++ ['\n'] ++ blanks (margin ++ line.take column) ++
    ['^', ' ']) ++ caption

end SmallLisp.Picture
