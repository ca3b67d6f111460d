import Lexing.CommandLine.Request
import Lexing.Proofs.Numerals

/-!
# What can be asked for on a command line

Flags, settings and files are read back from the command line that they are written on. A command
line asks for a listing exactly if it names files, all of which exist, its settings are readable,
and it asks for neither version nor help.
-/

namespace Lexing.CommandLine

/-- The long name of an option, its two dashes left out. -/
def OptionName.longName : OptionName → List Char
  | .setting .format => "format".toList
  | .setting .intBits => "int-bits".toList
  | .flag .noEol => "no-eol".toList
  | .flag .strictCr => "strict-cr".toList
  | .flag .verbose => "verbose".toList
  | .flag .version => "version".toList
  | .flag .help => "help".toList

def OptionName.spelled (name : OptionName) : String :=
  String.ofList ('-' :: '-' :: name.longName)

/-- A command line for some arguments: the flags, each setting with its value behind it, and the
files behind a double dash. -/
def Arguments.written (given : Arguments) : List String :=
  given.flags.map (fun flag => (OptionName.flag flag).spelled) ++
    (given.settings.flatMap fun (setting, value) => [(OptionName.setting setting).spelled, value]) ++
    "--" :: given.files

def formatName : ListingFormat → String
  | .text => "text"
  | .json => "json"

/-- Arguments for a request: its format, whichever it is, and its width, if it has one, as settings. -/
def Request.arguments (request : Request) : Arguments where
  flags :=
    (if request.noEol then [.noEol] else []) ++ (if request.strictCr then [.strictCr] else []) ++
      if request.verbose then [.verbose] else []
  settings := (.format, formatName request.format) ::
    request.intBits.toList.map fun bits => (.intBits, String.ofList (Numeral.integerText bits))
  files := request.files

/-- A command line asks for the listing of a request. -/
def Request.AskedBy (request : Request) (entry : String → Entry) (arguments : List String) : Prop :=
  ∃ given, Arguments.read arguments = .ok given ∧ given.action entry = .ok (.list request)

section Reading

theorem longOption?_longName (name : OptionName) : longOption? name.longName = some name := by
  obtain flag | setting := name
  · cases flag <;> rfl
  · cases setting <;> rfl

theorem equals_not_mem_longName (name : OptionName) : '=' ∉ name.longName := by
  obtain flag | setting := name
  · cases flag <;> decide
  · cases setting <;> decide

namespace Arguments

theorem read_spelled (name : OptionName) (more : List String) :
    read (name.spelled :: more) =
      match name with
      | .flag flag => (read more).map (withFlag flag)
      | .setting setting =>
        match more with
        | [] => .error .badOptionUsage
        | value :: more => (read more).map (withSetting setting value) := by
  have hequals : ∀ c ∈ name.longName, (c != '=') = true :=
    fun c hc => bne_iff_ne.mpr fun heq => equals_not_mem_longName name (heq ▸ hc)
  have hname := List.takeWhile_eq_self_iff.mpr hequals
  have hvalue := List.dropWhile_eq_nil_iff.mpr hequals
  have hoption := longOption?_longName name
  rw [OptionName.spelled, read, String.toList_ofList]
  generalize name.longName = long at *
  split
  · rename_i hdashes
    obtain rfl : long = [] := by simpa using hdashes
    cases hoption
  · rename_i hlong
    obtain rfl : long = _ := by simpa using hlong
    simp only [hname, hvalue, hoption]
    cases name with
    | flag flag => rfl
    | setting setting => cases more <;> rfl
  · rename_i hnot hshort
    obtain ⟨-, hdash⟩ := List.cons.inj hshort
    exact (hnot (List.cons.inj hdash).1.symm).elim
  · rename_i hnot _
    exact (hnot long rfl).elim

/-- Arguments are read back from the command line that they are written on. -/
theorem read_written (given : Arguments) : read given.written = .ok given := by
  obtain ⟨flags, settings, files⟩ := given
  have hsettings : read (written { settings, files }) = .ok { settings, files } := by
    induction settings with
    | nil => rfl
    | cons setting settings ih =>
      obtain ⟨setting, value⟩ := setting
      have hread := read_spelled (.setting setting) (value :: written { settings, files })
      dsimp only at hread
      rw [ih] at hread
      exact hread
  induction flags with
  | nil => exact hsettings
  | cons flag flags ih =>
    have hread := read_spelled (.flag flag) (written { flags, settings, files })
    rw [ih] at hread
    exact hread

end Arguments

end Reading

section Requests

variable {given : Arguments} {request : Request} {entry : String → Entry}

private theorem find?_flag_eq_none_iff {flags : List Flag} :
    (flags.find? fun flag => flag = .version ∨ flag = .help) = none ↔
      .version ∉ flags ∧ .help ∉ flags := by
  rw [List.find?_eq_none]
  constructor
  · intro h
    exact ⟨fun hmem => h _ hmem (by decide), fun hmem => h _ hmem (by decide)⟩
  · rintro ⟨hversion, hhelp⟩ flag hmem
    rw [decide_eq_true_iff]
    rintro (rfl | rfl)
    · exact hversion hmem
    · exact hhelp hmem

/-- A request can be read off a command line whose settings are readable and that names files, all of
which exist. -/
theorem request_eq_ok_iff : given.request entry = .ok request ↔
    given.files ≠ [] ∧ (∀ file ∈ given.files, (entry file).isFile = true) ∧
      ∃ format intBits, optionalValue readFormat? (given.value? .format) = .ok format ∧
        optionalValue readIntBits? (given.value? .intBits) = .ok intBits ∧
        request =
          { files := given.files
            format := format.getD .text
            noEol := given.flags.contains .noEol
            strictCr := given.flags.contains .strictCr
            verbose := given.flags.contains .verbose
            intBits } := by
  have hany : (given.files.any fun file => !(entry file).isFile) = true ↔
      ¬ ∀ file ∈ given.files, (entry file).isFile = true := by
    simp
  constructor
  · intro h
    unfold Arguments.request at h
    cases hformat : optionalValue readFormat? (given.value? .format) with
    | error e =>
      rw [hformat] at h
      cases h
    | ok format =>
      cases hintBits : optionalValue readIntBits? (given.value? .intBits) with
      | error e =>
        rw [hformat, hintBits] at h
        cases h
      | ok intBits =>
        rw [hformat, hintBits] at h
        change (if _ then _ else if _ then _ else _) = _ at h
        split_ifs at h with hnone hmissing
        cases h
        exact ⟨hnone, not_not.mp (mt hany.mpr hmissing), format, intBits, rfl, rfl, rfl⟩
  · rintro ⟨hnone, hfiles, format, intBits, hformat, hintBits, rfl⟩
    unfold Arguments.request
    rw [hformat, hintBits]
    change (if _ then _ else if _ then _ else _) = _
    rw [if_neg hnone, if_neg fun hmissing => hany.mp hmissing hfiles]

/-- A command line asks for a listing if a request can be read off it and it asks for neither version
nor help. -/
theorem action_eq_list_iff : given.action entry = .ok (.list request) ↔
    (.version ∉ given.flags ∧ .help ∉ given.flags) ∧ given.request entry = .ok request := by
  rw [← find?_flag_eq_none_iff, Arguments.action]
  cases given.flags.find? fun flag => flag = .version ∨ flag = .help with
  | some flag => cases flag <;> simp
  | none => cases given.request entry <;> simp [Except.map]

theorem optionalValue_eq_some_iff {α : Type} {read? : String → Option α} {text? : Option String}
    {value : α} :
    optionalValue read? text? = .ok (some value) ↔ ∃ text ∈ text?, read? text = some value := by
  cases text? with
  | none => simp [optionalValue]
  | some text => cases hread : read? text <;> simp [optionalValue, hread]

theorem readIntBits?_integerText {bits : Int} (h : (minIntBits : Int) ≤ bits ∧ bits ≤ maxIntBits) :
    readIntBits? (String.ofList (Numeral.integerText bits)) = some bits := by
  have hdigits : bits.natAbs < 10 ^ Numeral.digitLimit := by
    have hsmall : bits.natAbs < 10 ^ 4 := by
      have hlow : (0 : Int) ≤ bits := le_trans (by decide) h.1
      have hhigh : bits ≤ 1024 := h.2
      omega
    exact hsmall.trans_le (Nat.pow_le_pow_right (by decide) (by decide))
  rw [readIntBits?, String.toList_ofList, Numeral.readInteger?_integerText hdigits]
  exact Option.filter_eq_some_iff.mpr ⟨rfl, decide_eq_true h⟩

theorem readFormat?_formatName (format : ListingFormat) :
    readFormat? (formatName format) = some format := by
  cases format <;> rfl

namespace Request

/-- A request for files that exist, and for a width in the range of widths if for any. -/
structure Valid (request : Request) (entry : String → Entry) : Prop where
  files_ne_nil : request.files ≠ []
  isFile : ∀ file ∈ request.files, (entry file).isFile = true
  intBits_mem : ∀ bits, request.intBits = some bits →
    (minIntBits : Int) ≤ bits ∧ bits ≤ maxIntBits

theorem AskedBy.valid {arguments : List String} (h : request.AskedBy entry arguments) :
    request.Valid entry := by
  obtain ⟨given, -, haction⟩ := h
  obtain ⟨hsome, hfiles, format, intBits, -, hread, rfl⟩ :=
    request_eq_ok_iff.mp (action_eq_list_iff.mp haction).2
  refine ⟨hsome, hfiles, ?_⟩
  rintro bits rfl
  obtain ⟨text, -, hbits⟩ := optionalValue_eq_some_iff.mp hread
  exact of_decide_eq_true (Option.filter_eq_some_iff.mp hbits).2

theorem mem_flags {flag : Flag} : flag ∈ request.arguments.flags ↔
    request.noEol = true ∧ flag = .noEol ∨ request.strictCr = true ∧ flag = .strictCr ∨
      request.verbose = true ∧ flag = .verbose := by
  simp [arguments]

theorem contains_flags (request : Request) :
    request.arguments.flags.contains .noEol = request.noEol ∧
      request.arguments.flags.contains .strictCr = request.strictCr ∧
      request.arguments.flags.contains .verbose = request.verbose := by
  refine ⟨?_, ?_, ?_⟩ <;>
    rw [Bool.eq_iff_iff, List.contains_iff_mem, mem_flags] <;> simp

theorem value?_format (request : Request) :
    request.arguments.value? .format = some (formatName request.format) := by
  obtain ⟨_, _, _, _, _, intBits⟩ := request
  cases intBits <;> rfl

theorem value?_intBits (request : Request) : request.arguments.value? .intBits =
    request.intBits.map fun bits => String.ofList (Numeral.integerText bits) := by
  obtain ⟨_, _, _, _, _, intBits⟩ := request
  cases intBits <;> rfl

theorem Valid.askedBy_written (h : request.Valid entry) :
    request.AskedBy entry request.arguments.written := by
  have hformat : optionalValue readFormat? (request.arguments.value? .format) =
      .ok (some request.format) :=
    optionalValue_eq_some_iff.mpr ⟨_, request.value?_format, readFormat?_formatName _⟩
  have hread : optionalValue readIntBits? (request.arguments.value? .intBits) =
      .ok request.intBits := by
    rw [value?_intBits]
    cases hbits : request.intBits with
    | none => rfl
    | some bits =>
      exact optionalValue_eq_some_iff.mpr
        ⟨_, Option.map_some .., readIntBits?_integerText (h.intBits_mem bits hbits)⟩
  obtain ⟨hnoEol, hstrictCr, hverbose⟩ := request.contains_flags
  have hlisting : .version ∉ request.arguments.flags ∧ .help ∉ request.arguments.flags := by
    simp [mem_flags]
  refine ⟨request.arguments, Arguments.read_written _,
    action_eq_list_iff.mpr ⟨hlisting, request_eq_ok_iff.mpr
      ⟨h.files_ne_nil, h.isFile, _, _, hformat, hread, ?_⟩⟩⟩
  rw [hnoEol, hstrictCr, hverbose]
  rfl

/-- The valid requests, with any flags, are those that some command line asks for. -/
theorem exists_askedBy_iff : (∃ arguments, request.AskedBy entry arguments) ↔ request.Valid entry :=
  ⟨fun ⟨_, h⟩ => h.valid, fun h => ⟨_, h.askedBy_written⟩⟩

end Request

end Requests

end Lexing.CommandLine
