import Lexing.Diagnostic
import Lexing.Text.ControlSequence
import Lexing.Text.Utf8

/-!
# Outcomes and failures

A command ends with an exit code and what it wrote to its two streams. A failure of the command says
on the error stream what went wrong, and its kind decides the exit code.
-/

namespace Lexing.CommandLine

structure Outcome where
  exitCode : Nat := 0
  stdout : String := ""
  stderr : String := ""
  deriving DecidableEq, Repr

/-- A message as it is written to a stream, on a line of its own and without control sequences. -/
def echo (message : List Char) : String :=
  String.ofList (Text.withoutControlSequences message ++ ['\n'])

inductive Failure
  | lexical (d : Diagnostic)
  | lexicalReport (report : String)
  | configuration (message : String)
  | frontEnd (message : String)
  | unusableInput (message : String)
  | undecodable (fault : Text.Utf8.Fault)
  | internal (message : String)

namespace Failure

/-- One for faults in the sources, two for what the caller asked for, three for the rest. -/
def exitCode : Failure → Nat
  | .lexical _ | .lexicalReport _ | .frontEnd _ => 1
  | .configuration _ | .unusableInput _ | .undecodable _ => 2
  | .internal _ => 3

def message : Failure → String
  | .lexical d => d.render
  | .lexicalReport report => report
  | .configuration message => "Configuration error: " ++ message
  | .frontEnd message => "Error: " ++ message
  | .unusableInput message => "Error: " ++ message
  | .undecodable fault => "Error: input is not valid UTF-8: " ++ fault.message
  | .internal message => "Internal error: " ++ message

/-- A verbose command heads the trace of an internal error. -/
def trace (verbose : Bool) : Failure → String
  | .internal _ => if verbose then "Traceback (most recent call last):\n" else ""
  | _ => ""

/-- How a command ends that fails before it has written anything. -/
def outcome (verbose : Bool) (failure : Failure) : Outcome where
  exitCode := failure.exitCode
  stderr := echo failure.message.toList ++ failure.trace verbose

end Failure

end Lexing.CommandLine
