import Lexing.Proofs.Command
import Lexing.Proofs.Environment

/-!
# Flags over the environment

A flag wins over its variable, but only among the texts that the variable is accepted for: the
environment is read as a whole before any flag, and an environment that is refused ends the run
whatever the flags are.
-/

namespace Lexing.CommandLine

open Text

section Messages

theorem toList_toString_int (n : Int) : (toString n).toList = Numeral.integerText n := by
  cases n <;> simp [toString, Int.repr, Nat.repr, Numeral.integerText, Numeral.naturalText]

/-- Whatever text is unusable, the message quotes it without its control characters. -/
theorem escape_not_mem_message (error : ConfigError) : '\x1b' ∉ error.message.toList := by
  have hquoted (label given : String) (hlabel : '\x1b' ∉ label.toList) :
      '\x1b' ∉ (label ++ String.ofList (quote given.toList)).toList := by
    rw [String.toList_append, String.toList_ofList, List.mem_append, not_or]
    exact ⟨hlabel, (printed_quote _).not_mem (by decide)⟩
  cases error with
  | intBitsOutOfRange given =>
    have hsplit : (ConfigError.intBitsOutOfRange given).message.toList =
        "int_bits must be between 8 and 1024, got ".toList ++ Numeral.integerText given := by
      rw [← toList_toString_int, ← String.toList_append]
      rfl
    rw [hsplit, List.mem_append, not_or]
    exact ⟨by decide, (ascii_integerText given).not_mem (by decide)⟩
  | invalidLoneCr given => exact hquoted _ given (by decide)
  | invalidIntBits given => exact hquoted _ given (by decide)

end Messages

section Options

open Environment

variable {request : Request} {env : Environment} {base base' : Options}

/-- The options of a request over those of the environment. -/
def Request.override (request : Request) (base : Options) : Except ConfigError Options :=
  let options := { base with loneCr := base.loneCr && !request.strictCr }
  match request.intBits with
  | none => .ok options
  | some bits => options.withIntBits bits

theorem Request.options_eq (request : Request) (env : Environment) :
    request.options env = (env.options "<input>").bind request.override := rfl

theorem Request.override_intBits (hflag : request.intBits ≠ none)
    (hname : base.filename = base'.filename) (hcr : base.loneCr = base'.loneCr) :
    request.override base = request.override base' := by
  obtain ⟨bits, hbits⟩ := Option.ne_none_iff_exists'.mp hflag
  rw [Request.override, Request.override, hbits, hcr]
  simp only [Options.withIntBits, hname]

theorem Request.override_strictCr (hflag : request.strictCr = true)
    (hname : base.filename = base'.filename) (hbits : base.intBits = base'.intBits) :
    request.override base = request.override base' := by
  rw [Request.override, Request.override, hflag, Bool.not_true, Bool.and_false, Bool.and_false]
  have hsame : { base with loneCr := false } = { base' with loneCr := false } :=
    options_ext_iff.mpr ⟨hname, rfl, hbits⟩
  rw [hsame]

/-- Under a width by flag all usable texts of its variable come to the same. -/
theorem Request.options_intBits (hflag : request.intBits ≠ none) {a b : Option String}
    (ha : ∃ bits, IntBitsGiven a bits) (hb : ∃ bits, IntBitsGiven b bits) :
    request.options { env with intBits := a } = request.options { env with intBits := b } := by
  obtain ⟨bits, ha⟩ := ha
  obtain ⟨bits', hb⟩ := hb
  rw [Request.options_eq, Request.options_eq]
  cases hbase : ({ env with intBits := a } : Environment).options "<input>" with
  | ok base =>
    obtain ⟨hcr, -, hname⟩ := options_eq_ok_iff.mp hbase
    rw [options_of_given { env with intBits := b } hcr hb]
    exact Request.override_intBits hflag hname rfl
  | error error =>
    -- the text for the width is usable, so it is the other variable that is not
    have hother : Unusable { env with intBits := b } error := by
      rcases options_eq_error_iff.mp hbase with ⟨hset, hne, hmeaning⟩ | ⟨hcr, -, -, -⟩ |
        ⟨hcr, -, -, -, -⟩
      · exact .loneCr hset hne hmeaning
      all_goals
        rw [options_of_given { env with intBits := a } hcr ha] at hbase
        cases hbase
    rw [options_eq_error_iff.mpr hother]

/-- Under the strict rule by flag all usable texts of its variable come to the same. -/
theorem Request.options_strictCr (hflag : request.strictCr = true) {a b : Option String}
    (ha : ∃ loneCr, LoneCrGiven a loneCr) (hb : ∃ loneCr, LoneCrGiven b loneCr) :
    request.options { env with loneCr := a } = request.options { env with loneCr := b } := by
  obtain ⟨loneCr, ha⟩ := ha
  obtain ⟨loneCr', hb⟩ := hb
  rw [Request.options_eq, Request.options_eq]
  cases hbase : ({ env with loneCr := a } : Environment).options "<input>" with
  | ok base =>
    obtain ⟨-, hbits, hname⟩ := options_eq_ok_iff.mp hbase
    rw [options_of_given { env with loneCr := b } hb hbits]
    exact Request.override_strictCr hflag hname rfl
  | error error =>
    have hother : Unusable { env with loneCr := b } error := by
      rcases options_eq_error_iff.mp hbase with ⟨hset, hne, hmeaning⟩ | ⟨-, hset, hne, hmeaning⟩ |
        ⟨-, hset, hne, hmeaning, hrange⟩
      · obtain rfl : a = _ := hset
        exact absurd ((settingGiven_some hne).mp ha) (hmeaning _)
      · exact .intBits hb hset hne hmeaning
      · exact .range hb hset hne hmeaning hrange
    rw [options_eq_error_iff.mpr hother]

end Options

section Runs

variable {arguments : List String} {given : Arguments} {request : Request} {env : Environment}
  {entry : String → Entry}

/-- What the flags are in the request that the arguments come to. -/
theorem request_flags (h : given.action entry = .ok (.list request)) :
    (given.value? .intBits ≠ none → request.intBits ≠ none) ∧
      request.strictCr = given.flags.contains .strictCr := by
  obtain ⟨-, -, format, intBits, -, hread, rfl⟩ := request_eq_ok_iff.mp (action_eq_list_iff.mp h).2
  refine ⟨?_, rfl⟩
  rintro hgiven rfl
  obtain ⟨text, htext⟩ := Option.ne_none_iff_exists'.mp hgiven
  rw [htext, optionalValue] at hread
  split at hread <;> cases hread

/-- Environments that come to the same options for every request come to the same runs. -/
theorem run_congr {env' : Environment} (hread : Arguments.read arguments = .ok given)
    (h : ∀ request, given.action entry = .ok (.list request) →
      request.options env = request.options env') :
    run arguments env entry = run arguments env' entry := by
  rw [run, run, hread]
  change (given.action entry >>= _) = (given.action entry >>= _)
  cases haction : given.action entry with
  | error e => rfl
  | ok action =>
    cases action with
    | showVersion => rfl
    | showHelp => rfl
    | list request =>
      change Except.ok _ = Except.ok _
      rw [Request.run, Request.run, h request haction]

theorem run_unusable {error : ConfigError} (hread : Arguments.read arguments = .ok given)
    (haction : given.action entry = .ok (.list request)) (herror : Unusable env error) :
    run arguments env entry = .ok
      { exitCode := 2
        stderr := "Configuration error: " ++ error.message ++ "\n" } := by
  have hoptions : request.options env = .error error := by
    rw [Request.options_eq, Environment.options_eq_error_iff.mpr herror]
    rfl
  have hmessage : '\x1b' ∉ ("Configuration error: " ++ error.message).toList := by
    rw [String.toList_append, List.mem_append, not_or]
    exact ⟨by decide, escape_not_mem_message error⟩
  rw [run_eq_of_askedBy ⟨given, hread, haction⟩, Request.run, hoptions]
  dsimp only [Failure.outcome, Failure.exitCode, Failure.message, Failure.trace]
  have hline : String.ofList (("Configuration error: " ++ error.message).toList ++ ['\n']) =
      "Configuration error: " ++ error.message ++ "\n" := by
    rw [String.ofList_append, String.ofList_toList]
  rw [echo_of_not_mem hmessage, hline, String.append_empty]

/-- A flag makes the usable texts of its variable all alike, but an unusable one still ends the run
with an error, as it does without the flag. -/
theorem run_overrides (hread : Arguments.read arguments = .ok given) (env : Environment)
    (entry : String → Entry) :
    (given.value? .intBits ≠ none → ∀ a b,
      (∃ bits, IntBitsGiven a bits) → (∃ bits, IntBitsGiven b bits) →
        run arguments { env with intBits := a } entry =
          run arguments { env with intBits := b } entry) ∧
    (.strictCr ∈ given.flags → ∀ a b,
      (∃ loneCr, LoneCrGiven a loneCr) → (∃ loneCr, LoneCrGiven b loneCr) →
        run arguments { env with loneCr := a } entry =
          run arguments { env with loneCr := b } entry) ∧
    ∀ request error, given.action entry = .ok (.list request) → Unusable env error →
      run arguments env entry = .ok
        { exitCode := 2
          stdout := ""
          stderr := "Configuration error: " ++ error.message ++ "\n" } := by
  refine ⟨fun hflag a b ha hb => ?_, fun hflag a b ha hb => ?_, fun request error => run_unusable hread⟩
  · exact run_congr hread fun request haction =>
      Request.options_intBits ((request_flags haction).1 hflag) ha hb
  · refine run_congr hread fun request haction => Request.options_strictCr ?_ ha hb
    rw [(request_flags haction).2]
    exact List.contains_iff_mem.mpr hflag

/-- Of two usable texts for the width, and of two for carriage returns, neither shows under the
flags; an unusable one does. -/
theorem overridden_variables :
    let entry : String → Entry := fun _ => .file (Utf8.encode "x".toList)
    let arguments := ["--strict-cr", "--int-bits=32", "a.sp"]
    run arguments { intBits := some " 0_8 " } entry = run arguments { } entry ∧
      run arguments { loneCr := some "No" } entry = run arguments { } entry ∧
      run arguments { intBits := some "abc" } entry = .ok
        { exitCode := 2
          stdout := ""
          stderr := "Configuration error: invalid SPRIG_INT_BITS value: 'abc'\n" } := by
  intro entry arguments
  let given : Arguments :=
    { flags := [.strictCr], settings := [(.intBits, "32")], files := ["a.sp"] }
  have hread : Arguments.read arguments = .ok given := by decide +kernel
  have haction : given.action entry =
    .ok (.list { files := ["a.sp"], strictCr := true, intBits := some 32 }) := by decide +kernel
  obtain ⟨hbits, hcr, -⟩ := run_overrides hread { } entry
  have height : NumeralText isNumeralBlank " 0_8 ".toList (8 : Nat) :=
    readInteger?_eq_some_iff.mp (by decide +kernel)
  have hno : SwitchText "No".toList false := readSwitch?_eq_some_iff.mp (by decide +kernel)
  have hunusable : Unusable { intBits := some "abc" } (.invalidIntBits "abc") :=
    Environment.options_eq_error_iff.mp (show Environment.options _ "" = _ by decide +kernel)
  refine ⟨hbits (by decide) _ _ ⟨8, .inr ⟨_, rfl, by decide, height, by decide⟩⟩ ⟨64, ?_⟩,
    hcr (by decide) _ _ ⟨false, .inr ⟨_, rfl, by decide, hno⟩⟩ ⟨true, .inl ⟨.inl rfl, rfl⟩⟩, ?_⟩
  · exact .inl ⟨.inl rfl, rfl⟩
  · exact (run_overrides hread { intBits := some "abc" } entry).2.2 _ _ haction hunusable

/-- An unusable text shows under the flag that overrides its variable. -/
theorem overridden_variable_shows :
    let entry : String → Entry := fun _ => .file (Utf8.encode "x".toList)
    let arguments := ["--int-bits", "32", "a.sp"]
    run arguments { } entry = .ok
        { stdout := "1:1     IDENTIFIER      'x'\n1:2     EOF\n" } ∧
      run arguments { intBits := some "abc" } entry = .ok
        { exitCode := 2
          stderr := "Configuration error: invalid SPRIG_INT_BITS value: 'abc'\n" } := by
  decide +kernel

end Runs

end Lexing.CommandLine
