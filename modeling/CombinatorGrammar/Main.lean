import CombinatorGrammar.Cli.Command

/-!
# The program

Read files, write to the two output streams and set the exit status; all else is decided by
`Cli.run`.
-/

namespace CombinatorGrammar.Cli

/-- The text of a file, or why it cannot be read. -/
def readFile (path : String) : IO (Except ReadError String) := do
  try
    let bytes ← IO.FS.readBinFile path
    match String.fromUTF8? bytes with
    | some text => return .ok text
    | none => return .error .invalidText
  catch
    | .noFileOrDirectory .. => return .error .notFound
    | .permissionDenied .. => return .error .denied
    | e => return .error (.other e.toString)

end CombinatorGrammar.Cli

/-- Run the command line. -/
def main (arguments : List String) : IO UInt32 := do
  let terminal ← (← IO.getStderr).isTty
  let output ← CombinatorGrammar.Cli.run terminal CombinatorGrammar.Cli.readFile arguments
  (← IO.getStdout).putStr output.out
  (← IO.getStderr).putStr output.err
  return UInt32.ofNat output.status
