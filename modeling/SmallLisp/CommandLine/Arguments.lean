import SmallLisp.Text.Digit
import SmallLisp.Text.Quoted

/-!
# Arguments of the command line

The command takes three flags, a request for help, and the path of a program. Flags may stand in
front of the path or behind it. The short ones may be written together, and the long ones may be cut
short as long as they stay distinct. A double dash ends the flags.

All arguments are classified first, and then taken one by one. So an ambiguous flag is complained of
before anything else, while help is shown as soon as it is met.
-/

set_option autoImplicit false

namespace SmallLisp.CommandLine

/-- A flag, or the request for help. -/
inductive Flag
  | help | ast | check | verbose
deriving DecidableEq, Repr

namespace Flag

def all : List Flag := [help, ast, check, verbose]

def short : Flag → Char
  | help => 'h'
  | ast => 'a'
  | check => 'c'
  | verbose => 'v'

/-- The long form with its dashes. -/
def long : Flag → String
  | help => "--help"
  | ast => "--ast"
  | check => "--check"
  | verbose => "--verbose"

/-- Both forms, as messages show them. -/
def text (f : Flag) : String := String.ofList ['-', f.short] ++ "/" ++ f.long

def ofShort? (c : Char) : Option Flag := all.find? (·.short == c)

/-- The flags whose long forms begin so. -/
def beginning (start : List Char) : List Flag := all.filter fun f => start.isPrefixOf f.long.toList

/-- The flag of this form, short or long. -/
def ofForm? (form : List Char) : Option Flag :=
  match form with
  | ['-', c] => ofShort? c
  | form => all.find? (·.long.toList == form)

end Flag

/-- What a run is asked to do. -/
structure Options where
  /-- The path of the program; a dash is the standard input. -/
  program : String := "-"
  ast : Bool := false
  check : Bool := false
  verbose : Nat := 0
deriving DecidableEq, Repr

namespace Options

/-- The options with a flag set. -/
def set (o : Options) : Flag → Options
  | .ast => { o with ast := true }
  | .check => { o with check := true }
  | .verbose => { o with verbose := o.verbose + 1 }
  | .help => o

end Options

/-- What is wrong with the arguments. -/
inductive ArgumentError
  | ambiguous (argument : String) (matching : List Flag)
  /-- A flag was given a value, which none takes. -/
  | unwanted (flag : Flag) (value : List Char)
  /-- Arguments that nothing takes. -/
  | unrecognized (arguments : List String)

namespace ArgumentError

def message : ArgumentError → String
  | ambiguous argument matching =>
    "ambiguous option: " ++ argument ++ " could match " ++
      ", ".intercalate (matching.map Flag.long)
  | unwanted flag value =>
    "argument " ++ flag.text ++ ": ignored explicit argument " ++ Quoted.encode value
  | unrecognized arguments => "unrecognized arguments: " ++ " ".intercalate arguments

end ArgumentError

/-- What an argument is by its form. -/
inductive Argument
  /-- The double dash. -/
  | separator
  /-- A path, or something in its place. -/
  | plain (text : String)
  /-- A flag, with what is written behind it at once. -/
  | short (flag : Flag) (behind : Option (List Char))
  /-- A flag in its long form, with a value behind an equals sign. -/
  | long (flag : Flag) (value : Option (List Char))
  /-- Something that looks like a flag and is none. -/
  | unknown (text : String)

/-- A text and what stands behind its first equals sign, if it has one. -/
def splitValue (cs : List Char) : List Char × Option (List Char) :=
  match cs.dropWhile (· ≠ '=') with
  | [] => (cs, none)
  | _ :: value => (cs.takeWhile (· ≠ '='), some value)

/-- Whether some characters are decimal digits, and at least one. -/
def areDigits (cs : List Char) : Bool :=
  !cs.isEmpty && cs.all fun c => (CodePoint.ofChar c).digitValue?.isSome

/-- Whether a text behind a dash makes a negative number, with or without a point. One newline may
follow. -/
def isNumber (cs : List Char) : Bool :=
  let body := if cs.getLast? = some '\n' then cs.dropLast else cs
  let whole := body.takeWhile (· ≠ '.')
  match body.dropWhile (· ≠ '.') with
  | [] => areDigits whole
  | _ :: fraction => (whole.isEmpty || areDigits whole) && areDigits fraction

namespace Argument

/-- What an argument is that starts with a dash but is no flag: a path if it looks like a negative
number or has a space in it. -/
def ofStranger (text : String) : Argument :=
  let cs := text.toList
  if isNumber (cs.drop 1) || cs.contains ' ' then plain text else unknown text

/-- What an argument in front of any double dash is. -/
def classify (text : String) : Except ArgumentError Argument :=
  match text.toList with
  | '-' :: '-' :: [] => .ok separator
  | '-' :: '-' :: name =>
    let (form, value) := splitValue ('-' :: '-' :: name)
    match Flag.ofForm? form with
    | some flag => .ok (long flag value)
    | none =>
      match Flag.beginning form with
      | [] => .ok (ofStranger text)
      | [flag] => .ok (long flag value)
      | flags => .error (.ambiguous text flags)
  | '-' :: c :: behind =>
    match Flag.ofShort? c with
    | none => .ok (ofStranger text)
    | some flag =>
      match behind with
      | [] => .ok (short flag none)
      | '=' :: value => .ok (short flag (some value))
      | behind => .ok (short flag (some behind))
  | _ => .ok (plain text)

/-- What the arguments are, in order. Behind a double dash all are plain. -/
def classifyAll : List String → Except ArgumentError (List Argument)
  | [] => .ok []
  | text :: rest => do
    match ← classify text with
    | .separator => return .separator :: rest.map plain
    | argument => return argument :: (← classifyAll rest)

end Argument

/-- What the arguments ask for. -/
inductive Request
  | help
  | run (options : Options)

/-- The flags that are written together. What stands behind the first must all be flags. -/
def cluster (flag : Flag) : List Char → Except ArgumentError (List Flag)
  | [] => .ok [flag]
  | c :: more =>
    match Flag.ofShort? c with
    | some next => (cluster next more).map (flag :: ·)
    | none => .error (.unwanted flag (c :: more))

/-- The flags that an argument sets. -/
def flagsOf (flag : Flag) (behind : Option (List Char)) : Except ArgumentError (List Flag) :=
  match behind with
  | none => .ok [flag]
  | some [] => .error (.unwanted flag [])
  | some behind => cluster flag behind

/-- The arguments that are left: the options so far, whether the path is still to come, and what
nothing took, newest first. -/
def takeAll (options : Options) (wanting : Bool) (extras : List String) :
    List Argument → Except ArgumentError Request
  | [] => if extras.isEmpty then .ok (.run options) else .error (.unrecognized extras.reverse)
  | .short flag behind :: rest => do
    let flags ← flagsOf flag behind
    if flags.contains .help then return .help
    takeAll (flags.foldl Options.set options) wanting extras rest
  | .long flag none :: rest =>
    if flag = .help then .ok .help else takeAll (options.set flag) wanting extras rest
  | .long flag (some value) :: _ => .error (.unwanted flag value)
  | .unknown text :: rest => takeAll options wanting (text :: extras) rest
  | .separator :: rest =>
    if !wanting then takeAll options false ("--" :: extras) rest
    else
      match rest with
      | .plain text :: rest => takeAll { options with program := text } false extras rest
      | rest => takeAll options false extras rest
  | .plain text :: rest =>
    if !wanting then takeAll options false (text :: extras) rest
    else
      let options := { options with program := text }
      match rest with
      | .separator :: rest => takeAll options false extras rest
      | rest => takeAll options false extras rest

/-- What some arguments ask for. -/
def request (args : List String) : Except ArgumentError Request := do
  takeAll {} true [] (← Argument.classifyAll args)

end SmallLisp.CommandLine
