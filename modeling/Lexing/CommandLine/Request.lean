import Lexing.CommandLine.Path
import Lexing.Listing
import Lexing.Numeral.Integer
import Lexing.Options

/-!
# Requests

The arguments of a command line are read in two passes. The first tells options, their values and
files apart, and fails at the first option that is unknown or wrongly given. The second looks at the
values; asking for the version or for help comes before that.
-/

namespace Lexing.CommandLine

/-- Why a command line cannot be acted on. -/
inductive UsageError
  | missingParameter
  | noSuchOption
  | badOptionUsage
  | badParameter
  deriving DecidableEq, Repr

def UsageError.message : UsageError → String
  | .missingParameter => "Error: no input files"
  | .noSuchOption => "Error: no such option"
  | .badOptionUsage => "Error: an option lacks its value or takes none"
  | .badParameter => "Error: a value is unusable or a file is missing"

inductive Flag
  | noEol
  | strictCr
  | verbose
  | version
  | help
  deriving DecidableEq, Repr

inductive Setting
  | format
  | intBits
  deriving DecidableEq, Repr

inductive OptionName
  | flag (flag : Flag)
  | setting (setting : Setting)

/-- The option of a long name, its two dashes left out. -/
def longOption? (name : List Char) : Option OptionName :=
  match String.ofList name with
  | "format" => some (.setting .format)
  | "int-bits" => some (.setting .intBits)
  | "no-eol" => some (.flag .noEol)
  | "strict-cr" => some (.flag .strictCr)
  | "verbose" => some (.flag .verbose)
  | "version" => some (.flag .version)
  | "help" => some (.flag .help)
  | _ => none

def shortOption? : Char → Option OptionName
  | 'f' => some (.setting .format)
  | 'v' => some (.flag .verbose)
  | _ => none

/-- What the first pass tells apart, each list in the order of the command line. -/
structure Arguments where
  flags : List Flag := []
  settings : List (Setting × String) := []
  files : List String := []
  deriving DecidableEq, Repr

namespace Arguments

def withFlag (flag : Flag) (arguments : Arguments) : Arguments :=
  { arguments with flags := flag :: arguments.flags }

def withSetting (setting : Setting) (value : String) (arguments : Arguments) : Arguments :=
  { arguments with settings := (setting, value) :: arguments.settings }

def withFile (file : String) (arguments : Arguments) : Arguments :=
  { arguments with files := file :: arguments.files }

/-- A row of option letters: flags, then perhaps a setting with its value, if there is more to read. -/
structure Letters where
  flags : List Flag
  setting : Option (Setting × List Char)

/-- Reads letters up to the first setting, whose value is the rest of the row. -/
def readLetters : List Char → Except UsageError Letters
  | [] => .ok ⟨[], none⟩
  | c :: rest =>
    match shortOption? c with
    | none => .error .noSuchOption
    | some (.setting setting) => .ok ⟨[], some (setting, rest)⟩
    | some (.flag flag) =>
      (readLetters rest).map fun letters => { letters with flags := flag :: letters.flags }

/-- The first pass. After `--` everything is a file; a lone dash is one too. -/
def read : List String → Except UsageError Arguments
  | [] => .ok {}
  | argument :: more =>
    match argument.toList with
    | ['-', '-'] => .ok { files := more }
    | '-' :: '-' :: long =>
      let value := long.dropWhile (· != '=')
      match longOption? (long.takeWhile (· != '=')), value with
      | none, _ => .error .noSuchOption
      | some (.flag flag), [] => (read more).map (withFlag flag)
      | some (.flag _), _ :: _ => .error .badOptionUsage
      | some (.setting setting), _ :: value =>
        (read more).map (withSetting setting (String.ofList value))
      | some (.setting setting), [] =>
        match more with
        | [] => .error .badOptionUsage
        | value :: more => (read more).map (withSetting setting value)
    | '-' :: c :: row =>
      match readLetters (c :: row) with
      | .error e => .error e
      | .ok letters =>
        let addFlags := fun arguments : Arguments =>
          { arguments with flags := letters.flags ++ arguments.flags }
        match letters.setting, more with
        | none, more => (read more).map addFlags
        | some (_, []), [] => .error .badOptionUsage
        | some (setting, []), value :: more =>
          (read more).map (addFlags ∘ withSetting setting value)
        | some (setting, c :: value), more =>
          (read more).map (addFlags ∘ withSetting setting (String.ofList (c :: value)))
    | _ => (read more).map (withFile argument)

/-- The value given last to a setting. -/
def value? (arguments : Arguments) (setting : Setting) : Option String :=
  arguments.settings.reverse.lookup setting

end Arguments

/-- A listing that is asked for. -/
structure Request where
  files : List String
  format : ListingFormat := .text
  noEol : Bool := false
  strictCr : Bool := false
  verbose : Bool := false
  intBits : Option Int := none
  deriving DecidableEq, Repr

inductive Action
  | showVersion
  | showHelp
  | list (request : Request)
  deriving DecidableEq, Repr

/-- Folds the case of a letter; the long s folds to an s. -/
def foldCase (c : Char) : Char :=
  if c = '\u017f' then 's' else c.toLower

/-- A format by its name in any case. -/
def readFormat? (text : String) : Option ListingFormat :=
  match String.ofList (text.toList.map foldCase) with
  | "text" => some .text
  | "json" => some .json
  | _ => none

/-- A width of integers that options admit. -/
def readIntBits? (text : String) : Option Int :=
  (Numeral.readInteger? text.toList).filter fun bits => minIntBits ≤ bits ∧ bits ≤ maxIntBits

/-- A setting that may be left out, but not be unreadable. -/
def optionalValue {α : Type} (read? : String → Option α) : Option String → Except UsageError (Option α)
  | none => .ok none
  | some text =>
    match read? text with
    | some value => .ok (some value)
    | none => .error .badParameter

/-- Whether a path leads to a file. -/
def Entry.isFile : Entry → Bool
  | .file _ => true
  | _ => false

/-- The request of arguments whose values are readable and whose files exist. -/
def Arguments.request (arguments : Arguments) (entry : String → Entry) :
    Except UsageError Request := do
  let format ← optionalValue readFormat? (arguments.value? .format)
  let intBits ← optionalValue readIntBits? (arguments.value? .intBits)
  if arguments.files = [] then .error .missingParameter
  else if arguments.files.any fun file => !(entry file).isFile then .error .badParameter
  else
    .ok
      { files := arguments.files
        format := format.getD .text
        noEol := arguments.flags.contains .noEol
        strictCr := arguments.flags.contains .strictCr
        verbose := arguments.flags.contains .verbose
        intBits }

/-- The second pass. Of version and help, the one asked for first is shown. -/
def Arguments.action (arguments : Arguments) (entry : String → Entry) :
    Except UsageError Action :=
  match arguments.flags.find? fun flag => flag = .version ∨ flag = .help with
  | some .version => .ok .showVersion
  | some _ => .ok .showHelp
  | none => (arguments.request entry).map .list

end Lexing.CommandLine
