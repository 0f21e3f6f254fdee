import SmallLisp.Fault
import SmallLisp.Parser

/-!
# Reports

A report collects the issues of one run: what was wrong, where, and perhaps some advice. It shows the
source around the place when it knows both, by whatever draws such pictures. What the report writes,
it yields as a text.
-/

set_option autoImplicit false

namespace SmallLisp

/-- How a source text is shown around an offset, with a caption. -/
abbrev Drawing := (text : List Char) → (offset : Nat) → (caption : String) → String

/-- A caption, and the place in a source text that it is about, if it is about one. -/
structure Annotation where
  place : Option (List Char × Position)
  caption : String

namespace Annotation

def text (draw : Drawing) (a : Annotation) : String :=
  match a.place with
  | none => "  " ++ a.caption
  | some (source, position) => draw source position.offset a.caption

end Annotation

/-- Something that was wrong. -/
structure Issue where
  intro : String
  annotations : List Annotation
  footer : List String := []

namespace Issue

/-- The introduction, an empty line, the annotations and the footer. -/
def text (draw : Drawing) (i : Issue) : String :=
  "\n".intercalate ([i.intro, ""] ++ i.annotations.map (·.text draw) ++ i.footer)

end Issue

/-- Advice on a syntax error, in view of what was expected and what is there instead. -/
def SyntaxError.advice? (e : SyntaxError) : Option String :=
  match e.expected, e.found.kind with
  | "')' or value", .eof | "expression or ')'", .eof =>
    some "I suspect a missing ')' closing parentheses."
  | "expression", .punct .closeParen => some "Seems to be an extra ')' somewhere before here."
  | "function name", .int =>
    some "A negative number needs a space after the minus sign to mean subtraction."
  | "function name", .punct .openParen =>
    some ("Only a name or an operator can be called. " ++
      "To run several things in order, use eval.")
  | "name for variable declaration", .keyword .functionWord =>
    some "Functions are anonymous: write (let name (function ...))."
  | "')'", .punct .openParen => some "Probably a missing ')' just before here."
  | _, _ => none

/-- The last words on a syntax error: advice if there is some, or else what was expected. -/
def SyntaxError.hint (e : SyntaxError) : String :=
  match e.advice? with
  | some advice => "Here's my best guess:\n\t" ++ advice
  | none => "Expected " ++ e.expected ++ " here."

/-- The issues of one run, oldest first. -/
structure Report where
  verbose : Nat := 0
  source : Option (List Char) := none
  issues : List Issue := []

namespace Report

def ok (r : Report) : Bool := r.issues.isEmpty

/-- The report on another source text. -/
def setSource (r : Report) (text : List Char) : Report := { r with source := some text }

def add (r : Report) (i : Issue) : Report := { r with issues := r.issues ++ [i] }

/-- The report without its issues. -/
def reset (r : Report) : Report := { r with issues := [] }

/-- A caption for a place, which is drawn if there is a source to draw. -/
def annotation (r : Report) (position : Option Position) (caption : String) : Annotation where
  place := do return (← r.source, ← position)
  caption := caption

/-- Something went wrong at a place, and the message says what. -/
def aborted (r : Report) (intro message : String) (position : Option Position) : Report :=
  r.add { intro, annotations := [r.annotation position message] }

/-- The words of the text cannot be read. -/
def lexicalError (r : Report) (message : String) (position : Option Position) : Report :=
  r.aborted "Could not make sense of the program text." message position

/-- The text is no program. -/
def syntaxError (r : Report) (message : String) (position : Option Position) (hint : String) :
    Report :=
  r.add
    { intro := "Got confused by " ++ message ++ "."
      annotations := [r.annotation position "confused here"]
      footer := [hint] }

/-- The program ended in an error. -/
def evaluationError (r : Report) (kind : FaultKind) (message : String)
    (position : Option Position) : Report :=
  r.aborted ("Evaluation failed: " ++ kind.name ++ ".") message position

/-- The program went further than it may. -/
def overflow (r : Report) : Report :=
  r.add
    { intro := "The program recursed too deeply."
      annotations := []
      footer := ["Is there a loop without an exit?"] }

/-- Reports why a text is no program. -/
def parseError (r : Report) : ParseError → Report
  | .lexical e => r.lexicalError e.message e.position
  | .grammar e => r.syntaxError e.message e.position e.hint

/-- Reads a text as a program, with a report on it if it is none. -/
def parse (r : Report) (text : List Char) : Option Program × Report :=
  let r := r.setSource text
  match Program.parse text with
  | .ok p => (some p, r)
  | .error e => (none, r.parseError e)

/-- A line of words, if the run is a verbose one. -/
def info (r : Report) (words : List Text) : Text :=
  if r.verbose = 0 then []
  else List.intercalate (Text.ofString " ") words ++ Text.ofString "\n"

/-- All issues, each under a rule; nothing if there is none. -/
def complaint (draw : Drawing) (r : Report) : String :=
  let heading := if r.ok then "" else String.ofList (List.replicate 60 '*') ++ "\n"
  let rule := String.join (List.replicate 20 "  -") ++ "\n"
  heading ++ String.join (r.issues.map fun i => rule ++ i.text draw ++ "\n")

end Report

end SmallLisp
