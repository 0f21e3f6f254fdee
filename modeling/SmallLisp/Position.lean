import SmallLisp.Text.Decimal

/-!
# Positions

A position is a place between two characters of a program text: the line and the column, counted
from one, and the number of characters in front of it. Only a newline ends a line.
-/

set_option autoImplicit false

namespace SmallLisp

/-- A place in a program text. -/
structure Position where
  line : Nat
  column : Nat
  offset : Nat
deriving DecidableEq, Repr

namespace Position

/-- The place in front of the whole text. -/
def start : Position := ⟨1, 1, 0⟩

/-- The place after a character that stands at this place. -/
def after (p : Position) (c : Char) : Position :=
  if c = '\n' then ⟨p.line + 1, 1, p.offset + 1⟩ else ⟨p.line, p.column + 1, p.offset + 1⟩

/-- The place after some characters that stand at this place. -/
def through (p : Position) (cs : List Char) : Position := cs.foldl after p

/-- Line and column, as messages show them. -/
def text (p : Position) : String := decimal p.line ++ ":" ++ decimal p.column

@[simp] theorem through_nil (p : Position) : p.through [] = p := rfl

@[simp] theorem through_cons (p : Position) (c : Char) (cs : List Char) :
    p.through (c :: cs) = (p.after c).through cs := rfl

theorem through_append (p : Position) (cs ds : List Char) :
    p.through (cs ++ ds) = (p.through cs).through ds :=
  List.foldl_append

@[simp] theorem after_offset (p : Position) (c : Char) : (p.after c).offset = p.offset + 1 := by
  unfold after; split <;> rfl

@[simp] theorem through_offset (p : Position) (cs : List Char) :
    (p.through cs).offset = p.offset + cs.length := by
  induction cs generalizing p with
  | nil => rfl
  | cons c cs ih => rw [through_cons, ih, after_offset, List.length_cons]; omega

/-- The message put after its place, where there is one. -/
def locate (p : Option Position) (message : String) : String :=
  match p with
  | none => message
  | some p => p.text ++ ": " ++ message

end Position

end SmallLisp
