import SmallLisp.Text.CodePoint

/-!
# The console

What a program has still to read, and what it has written.
-/

set_option autoImplicit false

namespace SmallLisp

/-- The text that is left to read, and the text written so far. -/
structure Console where
  input : Text
  output : Array CodePoint

namespace Console

/-- A console with this text to read. -/
def reading (input : Text) : Console := ⟨input, #[]⟩

def written (c : Console) : Text := c.output.toList

/-- Writes a text. -/
def echo (c : Console) (t : Text) : Console := { c with output := c.output ++ t }

/-- A text without the carriage return at its end, if it has one. -/
def withoutReturn (t : Text) : Text :=
  if t.getLast? = some (CodePoint.ofChar '\r') then t.dropLast else t

/-- Reads a line: the text up to a newline or to its end, without the newline and without one
carriage return before it; none if nothing is left. -/
def readLine? (c : Console) : Option (Text × Console) :=
  if c.input.isEmpty then none
  else
    let inLine (p : CodePoint) : Bool := p ≠ CodePoint.ofChar '\n'
    some (withoutReturn (c.input.takeWhile inLine),
      { c with input := (c.input.dropWhile inLine).drop 1 })

end Console

end SmallLisp
