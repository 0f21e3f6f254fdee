import SmallLisp.CommandLine.Arguments
import SmallLisp.Evaluation
import SmallLisp.Expr.Outline
import SmallLisp.Report

/-!
# The command

The command reads a program from a file or from the standard input, complains if it is none, may show
its outline, and runs it. The exit code is zero if all went well, one if the program could not be
read or did not end well, and two if the arguments make no sense. Two failures of a run are complained
of nowhere and interrupt the command instead.

All is a function of the arguments and of what surrounds the command; it yields what is written. How
far a run may go and how pictures are drawn is left to whoever starts the command.
-/

set_option autoImplicit false

namespace SmallLisp.CommandLine

/-- Why a file or a stream cannot be read. -/
inductive OpenError
  | missing
  | isDirectory
  | notDirectory
  | nameTooLong
  | other (reason : String)
deriving DecidableEq, Repr

namespace OpenError

def message : OpenError → String
  | missing => "No such file or directory"
  | isDirectory => "Is a directory"
  | notDirectory => "Not a directory"
  | nameTooLong => "File name too long"
  | other reason => reason

end OpenError

/-- A text that is read as it is asked for. -/
structure Stream where
  /-- What can be read. -/
  text : List Char
  /-- Why nothing behind that can be read, if it is not the end. -/
  error : Option OpenError := none

namespace Stream

/-- All of it, if it can be read to its end. -/
def contents (s : Stream) : Except OpenError (List Char) :=
  match s.error with
  | none => .ok s.text
  | some e => .error e

/-- What can be read line by line: the beginning of a line that breaks off is lost. -/
def inLines (s : Stream) : List Char :=
  match s.error with
  | none => s.text
  | some _ => (s.text.reverse.dropWhile (· ≠ '\n')).reverse

end Stream

/-- What surrounds the command. -/
structure Surroundings where
  /-- The name of the current directory, if there still is one. -/
  directory : Except OpenError String
  /-- What a file holds, by the path given. -/
  read : String → Except OpenError (List Char)
  /-- The standard input. -/
  input : Stream
  /-- Whether somebody sits at the standard input. -/
  terminal : Bool

/-- What happens to a run that the command has no answer to. -/
inductive Interruption
  /-- A string with a surrogate was to be compared. -/
  | unencodable
  /-- A line was asked for that cannot be read. -/
  | unreadable (e : OpenError)
deriving DecidableEq, Repr

/-- How the command ends. -/
inductive Exit
  /-- There was nothing to do. -/
  | idle
  | code (n : Nat)
  | interrupted (i : Interruption)
deriving DecidableEq, Repr

/-- What the command comes to. -/
structure Outcome where
  exit : Exit
  stdout : Text
  stderr : Text
  /-- Whether the run failed for want of more input. -/
  starved : Bool := false

/-- A text with newlines only: a carriage return, with or without a newline behind it, becomes one. -/
def withNewlines : List Char → List Char
  | [] => []
  | '\r' :: '\n' :: rest => '\n' :: withNewlines rest
  | '\r' :: rest => '\n' :: withNewlines rest
  | c :: rest => c :: withNewlines rest

/-! ## Paths -/

/-- The parts of a path between its slashes, without those that stay where they are. -/
def pathParts (path : String) : List String :=
  (path.splitOn "/").filter fun part => part ≠ "" && part ≠ "."

/-- Where a path leads from a directory. One that begins with a slash leads there from anywhere; two
slashes at its beginning are kept, more count as one. -/
def resolve (directory path : String) : String :=
  let parts := pathParts path
  if path.startsWith "/" then
    let top := if path.startsWith "//" && !path.startsWith "///" then "//" else "/"
    top ++ "/".intercalate parts
  else if parts.isEmpty then directory
  else (if directory = "/" then "" else directory) ++ "/" ++ "/".intercalate parts

/-- The longest name of a file, in bytes. -/
def maxNameLength : Nat := 255

/-- Reads a file by its path relative to a directory that holds just these files. -/
def readFrom (files : List (String × List Char)) (path : String) : Except OpenError (List Char) :=
  let parts := pathParts path
  let found? (parts : List String) :=
    (files.find? fun (name, _) => pathParts name == parts).map (·.2)
  if parts.all (· == "..") then .error .isDirectory
  else if path.startsWith "/" then .error .missing
  else if parts.any (·.utf8ByteSize > maxNameLength) then .error .nameTooLong
  else
    match found? parts with
    | some text => .ok text
    | none =>
      if files.any fun (name, _) => parts.isPrefixOf (pathParts name) then .error .isDirectory
      else if (List.range parts.length).any fun n => (found? (parts.take n)).isSome then
        .error .notDirectory
      else .error .missing

/-! ## Texts -/

def usage : String := "usage: lispette [-h] [-a] [-c] [-v] [program]\n"

/-- The answer to a request for help. -/
def help : String :=
  usage ++ "\n" ++
  "Interpreter for the Lispette programming language.\n" ++
  "\n" ++
  "positional arguments:\n" ++
  "  program        path to a program, or - for standard input.\n" ++
  "\n" ++
  "options:\n" ++
  "  -h, --help     show this help message and exit\n" ++
  "  -a, --ast      Print the parsed program before running it.\n" ++
  "  -c, --check    Parse the program but do not actually execute it.\n" ++
  "  -v, --verbose  Say more about what is going on. Repeat for more.\n"

/-- What somebody who calls the command without arguments is told. -/
def introduction : String :=
  "This is an interpreter for the Lispette programming language.\n" ++
  "\n" ++
  usage ++ "\n" ++
  "\n" ++
  "For example:\n" ++
  "\n" ++
  "    lispette program.lsp\n" ++
  "\n" ++
  "will run program.lsp if possible, or else try to explain why not.\n" ++
  "\n" ++
  "    lispette < program.lsp\n" ++
  "\n" ++
  "reads the program from standard input instead.\n" ++
  "\n" ++
  "    lispette -h\n" ++
  "\n" ++
  "will explain all the arguments.\n"

/-! ## Runs -/

/-- The program text that the options ask for, what is then left to read, and what is said about the
reading. The line ends of a file become newlines; those of the standard input stay what they are. -/
def source (o : Options) (w : Surroundings) (r : Report) :
    Except OpenError (List Char × Stream) × Text :=
  if o.program = "-" then (w.input.contents.map fun text => (text, { text := [] }), [])
  else
    match w.directory with
    | .error e => (.error e, [])
    | .ok directory =>
      ((w.read o.program).map fun text => (withNewlines text, w.input),
        r.info [Text.ofString "Reading", Text.ofString (resolve directory o.program)])

/-- What is made of a failed run: a report on it, or an interruption. To ask for a line at the end of the
input is an error of the program, but if there are lines that cannot be read, it is none. -/
def account (r : Report) (input : Stream) : Failure → Except Interruption Report
  | .unencodable => .error .unencodable
  | .exhausted => .ok r.overflow
  | .error e =>
    match e.kind, input.error with
    | .endOfInput, some why => .error (.unreadable why)
    | _, _ => .ok (r.evaluationError e.kind e.message e.position)

section
variable (limits : Limits) (draw : Drawing)

/-- Runs a program that was read without complaints. -/
def execute (o : Options) (r : Report) (p : Program) (input : Stream) : Outcome :=
  let count := "Parsed " ++ decimal p.exprs.length ++ " top-level expression(s)."
  let parsed := r.info [Text.ofString count]
  let shown := if o.ast then Text.ofString (p.outline ++ "\n") else []
  if o.check then ⟨.code 0, shown, parsed ++ Text.ofString "Looks plausible to me.\n", false⟩
  else
    match p.run limits (Program.freshMachine (Text.ofChars input.inLines)) with
    | .ok v m =>
      ⟨.code 0, shown ++ m.console.written,
        parsed ++ r.info [Text.ofString "Result:", v.describe], false⟩
    | .error failure m =>
      match account r input failure with
      | .ok r =>
        ⟨.code 1, shown ++ m.console.written,
          parsed ++ Text.ofString (r.complaint draw), failure.isStarved⟩
      | .error i => ⟨.interrupted i, shown ++ m.console.written, parsed, failure.isStarved⟩

/-- Does what the options ask for. -/
def runWith (o : Options) (w : Surroundings) : Outcome :=
  let report : Report := { verbose := o.verbose }
  match source o w report with
  | (.error e, said) =>
    let complaint := "Could not open file for reading " ++ o.program ++ ": " ++ e.message ++ "\n"
    ⟨.code 1, [], said ++ Text.ofString complaint, false⟩
  | (.ok (text, input), said) =>
    match report.parse text with
    | (none, report) => ⟨.code 1, [], said ++ Text.ofString (report.complaint draw), false⟩
    | (some p, report) =>
      let outcome := execute limits draw o report p input
      { outcome with stderr := said ++ outcome.stderr }

/-- The whole command. -/
def run (args : List String) (w : Surroundings) : Outcome :=
  if args.isEmpty && w.terminal then ⟨.idle, Text.ofString introduction, [], false⟩
  else
    match request args with
    | .error e =>
      ⟨.code 2, [], Text.ofString (usage ++ "lispette: error: " ++ e.message ++ "\n"), false⟩
    | .ok .help => ⟨.code 0, Text.ofString help, [], false⟩
    | .ok (.run options) => runWith limits draw options w

end

end SmallLisp.CommandLine
