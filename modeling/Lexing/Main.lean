import Lexing.CommandLine.Run

/-!
# The program

Reads the files that the command line names and the two variables of the environment, runs the
command on them and writes what it says.
-/

open Lexing CommandLine

/-- A path that cannot be read as a file leads to none. -/
def readEntry (path : String) : IO Entry := do
  try
    let bytes ← IO.FS.readBinFile path
    return .file bytes.toList
  catch _ => return .missing

def main (arguments : List String) : IO UInt32 := do
  let env : Environment := ⟨← IO.getEnv "SPRIG_LONE_CR", ← IO.getEnv "SPRIG_INT_BITS"⟩
  let files := (Arguments.read arguments).toOption.elim [] Arguments.files
  let entries ← files.mapM fun file => return (file, ← readEntry file)
  match run arguments env fun path => (entries.lookup path).getD .missing with
  | .error e =>
    IO.eprintln e.message
    return 2
  | .ok outcome =>
    IO.print outcome.stdout
    IO.eprint outcome.stderr
    return outcome.exitCode.toUInt32
