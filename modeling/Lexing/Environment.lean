import Lexing.Numeral.Integer
import Lexing.Options
import Lexing.Text.Case
import Lexing.Text.Quoted

/-!
# Options from the environment

Two variables can set options. An empty variable counts as unset. The carriage-return variable is
read first, so it is the one reported if both are unusable.
-/

namespace Lexing

/-- The two variables, each unset or holding a text. -/
structure Environment where
  loneCr : Option String := none
  intBits : Option String := none
  deriving Repr

def ConfigError.message : ConfigError → String
  | .intBitsOutOfRange given =>
    s!"int_bits must be between {minIntBits} and {maxIntBits}, got {given}"
  | .invalidLoneCr given =>
    "invalid SPRIG_LONE_CR value: " ++ String.ofList (Text.quote given.toList)
  | .invalidIntBits given =>
    "invalid SPRIG_INT_BITS value: " ++ String.ofList (Text.quote given.toList)

namespace Environment

/-- Reads a switch, in any case and with white space around it. -/
def readSwitch? (text : List Char) : Option Bool :=
  let word := String.ofList (Text.lower (Text.trim Text.isWhitespace text))
  if ["1", "true", "yes", "on"].contains word then some true
  else if ["0", "false", "no", "off"].contains word then some false
  else none

def given? (setting : Option String) : Option String :=
  setting.filter (· ≠ "")

def applyLoneCr (env : Environment) (options : Options) : Except ConfigError Options :=
  match given? env.loneCr with
  | none => .ok options
  | some text =>
    match readSwitch? text.toList with
    | some loneCr => .ok { options with loneCr }
    | none => .error (.invalidLoneCr text)

def applyIntBits (env : Environment) (options : Options) : Except ConfigError Options :=
  match given? env.intBits with
  | none => .ok options
  | some text =>
    match Numeral.readInteger? text.toList with
    | some bits => options.withIntBits bits
    | none => .error (.invalidIntBits text)

/-- The options that the environment asks for, over the defaults. -/
def options (env : Environment) (filename : String) : Except ConfigError Options :=
  (env.applyLoneCr (.named filename)).bind env.applyIntBits

end Environment

end Lexing
