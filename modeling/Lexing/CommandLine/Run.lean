import Lexing.Collector
import Lexing.CommandLine.Failure
import Lexing.CommandLine.Request
import Lexing.Environment
import Lexing.Tokenize

/-!
# Running a request

The files of a request are tokenized one by one under the options of the environment and the flags,
which win over it. Listings come first, then the report of all diagnostics. A file that is not
UTF-8 ends the run at once.
-/

namespace Lexing.CommandLine

/-- The options for all files. The environment is read even where a flag wins over it. -/
def Request.options (request : Request) (env : Environment) : Except ConfigError Options :=
  (env.options "<input>").bind fun options =>
    let options := { options with loneCr := options.loneCr && !request.strictCr }
    match request.intBits with
    | none => .ok options
    | some bits => options.withIntBits bits

/-- What a run has found so far: listings, diagnostics and log. -/
structure Progress where
  listings : List Listing := []
  collector : Collector := {}
  log : List String := []

namespace Progress

def note (progress : Progress) (message : String) : Progress :=
  { progress with log := progress.log ++ [message] }

/-- Adds the tokens of a file, those at line ends left out if so wished. -/
def withTokens (progress : Progress) (noEol : Bool) (file : String) (tokens : List Token) :
    Progress :=
  let shown := if noEol then tokens.filter fun token => token.kind ≠ .endOfLine else tokens
  { progress with listings := progress.listings ++ [⟨file, shown⟩] }

def withDiagnostic (progress : Progress) (d : Diagnostic) : Progress :=
  { progress with collector := progress.collector.add d }

/-- Adds the result of one file. -/
def withResult (progress : Progress) (noEol : Bool) (options : Options)
    (result : Except Diagnostic (List Token)) : Progress :=
  let progress := progress.note (logLine options result)
  match result with
  | .ok tokens => progress.withTokens noEol options.filename tokens
  | .error d => progress.withDiagnostic d

end Progress

/--
Tokenizes files until there is none left, enough of them have failed, or one cannot be decoded.
-/
def scanFiles (options : Options) (noEol : Bool) (progress : Progress) :
    List (String × List UInt8) → Progress × Option Text.Utf8.Fault
  | [] => (progress, none)
  | (file, bytes) :: files =>
    let progress := progress.note s!"Tokenizing {file}"
    match Text.Utf8.decode bytes with
    | .error fault => (progress, some fault)
    | .ok source =>
      let options := { options with filename := file }
      let result := tokenize options source
      let progress := progress.withResult noEol options result
      if result.toBool || !progress.collector.isFull then scanFiles options noEol progress files
      else (progress, none)

/-- The log on the error stream of a verbose command. -/
def logText (verbose : Bool) (log : List String) : String :=
  if verbose then String.join (log.map fun message => s!"DEBUG: {message}\n") else ""

/-- How a run ends that got through its files. -/
def Request.finish (request : Request) (progress : Progress) : Outcome :=
  let messages :=
    Listing.messages request.format (decide (1 < request.files.length)) progress.listings
  let failed :=
    if progress.collector.isEmpty then {}
    else (Failure.lexicalReport progress.collector.report).outcome request.verbose
  { failed with stdout := String.join (messages.map echo) }

/-- Runs a request on the contents of its files. -/
def Request.run (request : Request) (env : Environment) (files : List (String × List UInt8)) :
    Outcome :=
  match request.options env with
  | .error e => (Failure.configuration e.message).outcome request.verbose
  | .ok options =>
    let (progress, fault) := scanFiles options request.noEol {} files
    let ended :=
      match fault with
      | some fault => (Failure.undecodable fault).outcome request.verbose
      | none => request.finish progress
    { ended with stderr := logText request.verbose progress.log ++ ended.stderr }

/-- The files of a request under the names that they are shown by. -/
def Request.contents (request : Request) (entry : String → Entry) : List (String × List UInt8) :=
  request.files.filterMap fun file =>
    match entry file with
    | .file bytes => some (shownPath file, bytes)
    | _ => none

def versionText : String := "sprig-lex, version 1.0.0\n"

def helpText : String :=
  String.join [
    "Usage: sprig-lex [OPTIONS] INPUT_FILES...\n\n",
    "Tokenize source files and print the token stream.\n\n",
    "Options:\n",
    "  -f, --format [text|json]  Output format (default: text)\n",
    "  --no-eol                  Leave end-of-line tokens out of the listing\n",
    "  --strict-cr               Report a lone carriage return as an error\n",
    "  --int-bits INTEGER        Width of integer literals, 8 to 1024 (default: 64)\n",
    "  -v, --verbose             Log to the error stream\n",
    "  --version                 Show the version and exit\n",
    "  --help                    Show this message and exit\n"]

/-- Acts on a command line, where `entry` says what stands at a path. -/
def run (arguments : List String) (env : Environment) (entry : String → Entry) :
    Except UsageError Outcome := do
  let arguments ← Arguments.read arguments
  match ← arguments.action entry with
  | .showVersion => .ok { stdout := versionText }
  | .showHelp => .ok { stdout := helpText }
  | .list request => .ok (request.run env (request.contents entry))

end Lexing.CommandLine
