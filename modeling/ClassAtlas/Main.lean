import ClassAtlas.Browser
import ClassAtlas.Browser.Terminal
import ClassAtlas.Command

/-! # The command line

Reads the file, prints the outcome and sets the exit code. An interactive session takes the name of
one key on each line of the standard input and prints the picture after it.
-/

namespace ClassAtlas.CommandLine
set_option autoImplicit false

def readSource (path : String) : IO Source := do
  try
    let bytes ← IO.FS.readBinFile path
    pure (.contents bytes.data.toList)
  catch e =>
    match e with
    | .noFileOrDirectory .. => pure .missing
    | .inappropriateType _ 20 _ => pure (.unreadable "open" "not a directory")
    | .inappropriateType .. => pure .directory
    | .permissionDenied .. => pure (.unreadable "open" "permission denied")
    | e => pure (.unreadable "open" (toString e))

/-- Prints the picture and waits for keys until one ends the session. -/
partial def session (b : Browser .terminal) : IO Unit := do
  let output ← IO.getStdout
  output.putStrLn b.view
  output.flush
  let line ← (← IO.getStdin).getLine
  if line.isEmpty then return
  let (b, quit) := b.update (.key (.ofName (String.ofList (line.toList.filter (· ≠ '\n')))))
  if quit then return
  session b

def finish (outcome : Outcome) : IO UInt32 := do
  (← IO.getStdout).putStr outcome.output
  (← IO.getStderr).putStr outcome.errors
  pure outcome.exitCode.toUInt32

def run (arguments : List String) : IO UInt32 := do
  match Command.plan arguments with
  | .finish outcome => finish outcome
  | .inspect o => finish (Command.inspect .terminal o (← (← IO.getStdout).isTty) (← readSource o.path))
  | .browse path => do
    let (_, result) := load path (← readSource path)
    session ((Browser.start path).update (.loaded result)).1
    pure 0

end ClassAtlas.CommandLine

def main (arguments : List String) : IO UInt32 :=
  ClassAtlas.CommandLine.run arguments
