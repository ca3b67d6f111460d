import Lexing.Diagnostic
import Lexing.Options

/-!
# Faults of a scan

The reasons for which no lexeme can be made of the text ahead, and the diagnostic of each.
-/

namespace Lexing

inductive Fault
  | unrecognizedOperator (spelling : List Char)
  | trailingDot
  | leadingDot
  | malformedInteger (text : List Char)
  | integerOutOfRange (text : List Char)
  | floatOutOfRange (text : List Char)
  | unterminatedString
  | loneColon
  | strayReturn (found : List Char)
  | unrecognizedCharacter (c : Char)
  deriving DecidableEq, Repr

namespace Fault

/-- A number as a message quotes it: in full up to twenty characters, else cut there. -/
def shownNumber (text : List Char) : String :=
  if text.length ≤ 20 then String.ofList text else String.ofList (text.take 20) ++ "..."

/-- The hint that names the range of integers. -/
def rangeHint (options : Options) : String :=
  s!"int literals must fit in {options.intBits} bits ({options.intMin} to {options.intMax})"

/-- The diagnostic of a fault at a place on a line. -/
def diagnose (options : Options) (fault : Fault) (location : Location) (line : List Char) :
    Diagnostic :=
  let place := some location
  let line := some line
  match fault with
  | .unrecognizedOperator spelling => .unrecognizedOperator spelling place line
  | .trailingDot =>
    .malformedNumber "trailing-dot decimals not allowed" place
      (some "add digits after the decimal point, e.g. '1.0'") line
  | .leadingDot =>
    .malformedNumber "leading-dot decimals not allowed" place
      (some "add digits before the decimal point, e.g. '0.5'") line
  | .malformedInteger text =>
    .malformedNumber ("malformed integer literal '" ++ shownNumber text ++ "'") place none line
  | .integerOutOfRange text =>
    .malformedNumber ("integer literal '" ++ shownNumber text ++ "' out of range") place
      (some (rangeHint options)) line
  | .floatOutOfRange text =>
    .malformedNumber ("float literal '" ++ shownNumber text ++ "' out of range") place none line
  | .unterminatedString => .unterminatedString place line
  | .loneColon =>
    .unrecognizedCharacter [':'] place line (some "parameters are introduced with '::'") none
  | .strayReturn found =>
    .unrecognizedCharacter found place line (some "use '\\n' or '\\r\\n' line endings")
      (some "stray carriage return")
  | .unrecognizedCharacter c => .unrecognizedCharacter [c] place line none none

end Fault

end Lexing
