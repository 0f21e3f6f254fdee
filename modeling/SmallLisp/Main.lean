import SmallLisp.CommandLine
import SmallLisp.Report.Picture

/-!
# The program

The command with the files, the standard streams and the terminal of the process around it, with
limits for its run and pictures for its complaints. Input is read as far as the run asks for it: a run
that lacks a line is repeated with one more, which repeats what was written and goes on from there.
-/

set_option autoImplicit false

namespace SmallLisp

open CommandLine

/-- The system's code for a path that leads through a file. -/
def notDirectoryCode : UInt32 := 20

/-- Why something could not be read. -/
def openError : IO.Error → OpenError
  | .noFileOrDirectory .. => .missing
  | .inappropriateType _ code _ => if code = notDirectoryCode then .notDirectory else .isDirectory
  | e => .other (toString e)

/-- What an action yields, or why something could not be read. -/
def attempt {α : Type} (action : IO α) : IO (Except OpenError α) := do
  try
    return .ok (← action)
  catch e => return .error (openError e)

/-- What a file holds. -/
def readFile (path : String) : IO (Except OpenError (List Char)) :=
  attempt do return (← IO.FS.readFile path).toList

/-- The standard input, read to its end. -/
def readInput : IO Stream := do
  match ← attempt do (← IO.getStdin).readToEnd with
  | .ok text => return { text := text.toList }
  | .error e => return { text := [], error := some e }

/-- What was read of the standard input with one more line, and whether there may be yet more. -/
def readMore (s : Stream) : IO (Stream × Bool) := do
  match ← attempt do (← IO.getStdin).getLine with
  | .ok line => return ({ s with text := s.text ++ line.toList }, !line.isEmpty)
  | .error e => return ({ s with error := some e }, false)

/-- A text as a string; a surrogate becomes a replacement character. -/
def shown (t : Text) : String := String.ofList (t.map fun c => c.toChar?.getD '\uFFFD')

/-- The code that a process ends with: one also if the command was interrupted. -/
def exitCode : Exit → UInt32
  | .idle => 0
  | .code n => n.toUInt32
  | .interrupted _ => 1

/-- Runs the command, of whose output so much has been written before. -/
partial def serve (args : List String) (w : Surroundings) (more : Bool) (written : Nat) :
    IO UInt32 := do
  let o := CommandLine.run .generous Picture.draw args w
  let stdout ← IO.getStdout
  stdout.putStr (shown (o.stdout.drop written))
  stdout.flush
  if o.starved && more then
    let (input, more) ← readMore w.input
    serve args { w with input } more o.stdout.length
  else
    IO.eprint (shown o.stderr)
    return exitCode o.exit

end SmallLisp

open SmallLisp CommandLine in
def main (args : List String) : IO UInt32 := do
  let terminal ← (← IO.getStdin).isTty
  let directory ← attempt do return toString (← IO.currentDir)
  let surroundings : Surroundings :=
    { directory, read := fun _ => .error .missing, input := { text := [] }, terminal }
  match request args with
  | .ok (.run options) =>
    if options.program = "-" then
      let input ← if args.isEmpty && terminal then pure surroundings.input else readInput
      serve args { surroundings with input } false 0
    else
      let content ← readFile (resolve (directory.toOption.getD "") options.program)
      serve args { surroundings with read := fun _ => content } true 0
  | _ => serve args surroundings false 0
