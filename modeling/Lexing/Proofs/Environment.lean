import Lexing.Proofs.Settings

/-!
# What the environment is accepted for

The options that come of an environment, and the environments that are refused, with the error that
each of them gets.
-/

namespace Lexing

/-- What a setting comes to: a default if it is unset or empty, else what its text means. -/
def SettingGiven {α : Type} (meaning : List Char → α → Prop) (default : α) (setting : Option String)
    (value : α) : Prop :=
  (setting = none ∨ setting = some "") ∧ value = default ∨
    ∃ text, setting = some text ∧ text ≠ "" ∧ meaning text.toList value

def LoneCrGiven : Option String → Bool → Prop :=
  SettingGiven SwitchText true

/-- A width in the range of widths, as a text says it. -/
def WidthText (text : List Char) (bits : Nat) : Prop :=
  NumeralText Text.isNumeralBlank text bits ∧ 8 ≤ bits ∧ bits ≤ 1024

def IntBitsGiven : Option String → Nat → Prop :=
  SettingGiven WidthText 64

/-- An environment is refused for an error: the rule for carriage returns comes first, then the text
of the width and last its range. -/
inductive Unusable (env : Environment) : ConfigError → Prop
  | loneCr {text : String} (hset : env.loneCr = some text) (hne : text ≠ "")
      (hmeaning : ∀ value, ¬ SwitchText text.toList value) : Unusable env (.invalidLoneCr text)
  | intBits {loneCr : Bool} {text : String} (hloneCr : LoneCrGiven env.loneCr loneCr)
      (hset : env.intBits = some text) (hne : text ≠ "")
      (hmeaning : ∀ value, ¬ NumeralText Text.isNumeralBlank text.toList value) :
      Unusable env (.invalidIntBits text)
  | range {loneCr : Bool} {text : String} {value : Int} (hloneCr : LoneCrGiven env.loneCr loneCr)
      (hset : env.intBits = some text) (hne : text ≠ "")
      (hmeaning : NumeralText Text.isNumeralBlank text.toList value) (hrange : value < 8 ∨ 1024 < value) :
      Unusable env (.intBitsOutOfRange value)

section Given

variable {α : Type} {meaning : List Char → α → Prop} {default value : α} {setting : Option String}
  {text : String}

/-- An empty setting counts as unset. -/
theorem given?_cases (setting : Option String) :
    (setting = none ∨ setting = some "") ∧ Environment.given? setting = none ∨
      ∃ text, setting = some text ∧ text ≠ "" ∧ Environment.given? setting = some text := by
  cases setting with
  | none => exact .inl ⟨.inl rfl, rfl⟩
  | some text =>
    by_cases hempty : text = ""
    · exact .inl ⟨.inr (congrArg some hempty), by simp [Environment.given?, hempty]⟩
    · exact .inr ⟨text, rfl, hempty, by simp [Environment.given?, hempty]⟩

theorem settingGiven_unset (h : setting = none ∨ setting = some "") :
    SettingGiven meaning default setting value ↔ value = default := by
  constructor
  · rintro (⟨-, hvalue⟩ | ⟨text, rfl, hne, -⟩)
    · exact hvalue
    · simp [hne] at h
  · exact fun hvalue => .inl ⟨h, hvalue⟩

theorem settingGiven_some (hne : text ≠ "") :
    SettingGiven meaning default (some text) value ↔ meaning text.toList value := by
  constructor
  · rintro (⟨h, -⟩ | ⟨_, heq, -, hmeaning⟩)
    · simp [hne] at h
    · cases heq
      exact hmeaning
  · exact fun hmeaning => .inr ⟨text, rfl, hne, hmeaning⟩

theorem intBitsGiven_range {bits : Nat} (h : IntBitsGiven setting bits) :
    minIntBits ≤ bits ∧ bits ≤ maxIntBits := by
  rcases h with ⟨-, rfl⟩ | ⟨text, -, -, -, hrange⟩
  · decide
  · exact hrange

end Given

namespace Environment

section Steps

variable {env : Environment} {options options' : Options} {error : ConfigError}

/-- Options are told apart by their three values. -/
theorem options_ext_iff : options = options' ↔ options.filename = options'.filename ∧
    options.loneCr = options'.loneCr ∧ options.intBits = options'.intBits := by
  cases options
  cases options'
  simp only [Options.mk.injEq]

theorem applyLoneCr_eq_ok_iff : env.applyLoneCr options = .ok options' ↔
    SettingGiven SwitchText options.loneCr env.loneCr options'.loneCr ∧
      options'.intBits = options.intBits ∧ options'.filename = options.filename := by
  unfold applyLoneCr
  rcases given?_cases env.loneCr with ⟨hunset, hgiven⟩ | ⟨text, hset, hne, hgiven⟩
  · rw [hgiven, settingGiven_unset hunset, Except.ok.injEq, options_ext_iff]
    tauto
  · rw [hgiven, hset, settingGiven_some hne, ← readSwitch?_eq_some_iff]
    dsimp only
    cases readSwitch? text.toList with
    | none => simp
    | some loneCr =>
      rw [Except.ok.injEq, options_ext_iff, Option.some.injEq]
      tauto

theorem applyLoneCr_eq_error_iff : env.applyLoneCr options = .error error ↔
    ∃ text, env.loneCr = some text ∧ text ≠ "" ∧ (∀ value, ¬ SwitchText text.toList value) ∧
      error = .invalidLoneCr text := by
  unfold applyLoneCr
  rcases given?_cases env.loneCr with ⟨hunset, hgiven⟩ | ⟨text, hset, hne, hgiven⟩
  · rw [hgiven]
    rcases hunset with hunset | hunset <;> simp [hunset]
  · rw [hgiven, hset]
    simp only [← readSwitch?_eq_some_iff, Option.some.injEq]
    cases hread : readSwitch? text.toList with
    | none => simp [hread, hne, eq_comm]
    | some loneCr => simp [hread]

theorem withIntBits_eq_ok_iff {bits : Int} : options.withIntBits bits = .ok options' ↔
    (options'.intBits : Int) = bits ∧
      options'.loneCr = options.loneCr ∧ options'.filename = options.filename := by
  have hmem := options'.intBits_mem
  unfold Options.withIntBits
  split
  · rename_i hrange
    have hlow : 0 < minIntBits := by decide
    rw [Except.ok.injEq, options_ext_iff]
    dsimp only
    constructor
    · rintro ⟨hname, hcr, hbits⟩
      exact ⟨by omega, hcr.symm, hname.symm⟩
    · rintro ⟨rfl, hcr, hname⟩
      exact ⟨hname.symm, hcr.symm, by omega⟩
  · rename_i hrange
    simp only [reduceCtorEq, false_iff]
    rintro ⟨rfl, -⟩
    exact hrange hmem

theorem withIntBits_eq_error_iff {bits : Int} : options.withIntBits bits = .error error ↔
    (bits < 8 ∨ 1024 < bits) ∧ error = .intBitsOutOfRange bits := by
  have hlimits : minIntBits = 8 ∧ maxIntBits = 1024 := ⟨rfl, rfl⟩
  unfold Options.withIntBits
  split
  · rename_i hrange
    simp only [reduceCtorEq, false_iff]
    rintro ⟨hbits, -⟩
    omega
  · rename_i hrange
    have hbits : bits < 8 ∨ 1024 < bits := by omega
    rw [Except.error.injEq, eq_comm]
    exact (and_iff_right hbits).symm

theorem applyIntBits_eq_ok_iff : env.applyIntBits options = .ok options' ↔
    SettingGiven WidthText options.intBits env.intBits options'.intBits ∧
      options'.loneCr = options.loneCr ∧ options'.filename = options.filename := by
  unfold applyIntBits
  rcases given?_cases env.intBits with ⟨hunset, hgiven⟩ | ⟨text, hset, hne, hgiven⟩
  · rw [hgiven, settingGiven_unset hunset, Except.ok.injEq, options_ext_iff]
    tauto
  · have hmem : 8 ≤ options'.intBits ∧ options'.intBits ≤ 1024 := options'.intBits_mem
    rw [hgiven, hset, settingGiven_some hne, WidthText, and_iff_left hmem, ← readInteger?_eq_some_iff]
    dsimp only
    cases Numeral.readInteger? text.toList with
    | none => simp
    | some bits => rw [withIntBits_eq_ok_iff, Option.some.injEq, eq_comm]

theorem applyIntBits_eq_error_iff : env.applyIntBits options = .error error ↔
    ∃ text, env.intBits = some text ∧ text ≠ "" ∧
      ((∀ value, ¬ NumeralText Text.isNumeralBlank text.toList value) ∧ error = .invalidIntBits text ∨
        ∃ value, NumeralText Text.isNumeralBlank text.toList value ∧ (value < 8 ∨ 1024 < value) ∧
          error = .intBitsOutOfRange value) := by
  unfold applyIntBits
  rcases given?_cases env.intBits with ⟨hunset, hgiven⟩ | ⟨text, hset, hne, hgiven⟩
  · rw [hgiven]
    rcases hunset with hunset | hunset <;> simp [hunset]
  · rw [hgiven, hset]
    simp only [← readInteger?_eq_some_iff, Option.some.injEq]
    cases hread : Numeral.readInteger? text.toList with
    | none => simp [hread, hne, eq_comm]
    | some bits => simp [hread, hne, withIntBits_eq_error_iff]

end Steps

section Results

variable {env : Environment} {filename : String} {options : Options} {error : ConfigError}

private theorem bind_eq_ok_iff {ε α β : Type} {x : Except ε α} {f : α → Except ε β} {b : β} :
    x.bind f = .ok b ↔ ∃ a, x = .ok a ∧ f a = .ok b := by
  cases x <;> simp [Except.bind]

private theorem bind_eq_error_iff {ε α β : Type} {x : Except ε α} {f : α → Except ε β} {e : ε} :
    x.bind f = .error e ↔ x = .error e ∨ ∃ a, x = .ok a ∧ f a = .error e := by
  cases x <;> simp [Except.bind]

theorem options_eq_ok_iff : env.options filename = .ok options ↔
    LoneCrGiven env.loneCr options.loneCr ∧ IntBitsGiven env.intBits options.intBits ∧
      options.filename = filename := by
  rw [Environment.options, bind_eq_ok_iff]
  constructor
  · rintro ⟨middle, hfirst, hsecond⟩
    obtain ⟨hcr, hsame, hname⟩ := applyLoneCr_eq_ok_iff.mp hfirst
    obtain ⟨hbits, hcr', hname'⟩ := applyIntBits_eq_ok_iff.mp hsecond
    rw [← hcr'] at hcr
    rw [hsame] at hbits
    exact ⟨hcr, hbits, hname'.trans hname⟩
  · rintro ⟨hcr, hbits, rfl⟩
    let middle : Options := { Options.named options.filename with loneCr := options.loneCr }
    exact ⟨middle, applyLoneCr_eq_ok_iff.mpr ⟨hcr, rfl, rfl⟩,
      applyIntBits_eq_ok_iff.mpr ⟨hbits, rfl, rfl⟩⟩

theorem options_eq_error_iff : env.options filename = .error error ↔ Unusable env error := by
  rw [Environment.options, bind_eq_error_iff]
  constructor
  · rintro (hfirst | ⟨middle, hfirst, hsecond⟩)
    · obtain ⟨text, hset, hne, hmeaning, rfl⟩ := applyLoneCr_eq_error_iff.mp hfirst
      exact .loneCr hset hne hmeaning
    · have hcr : LoneCrGiven env.loneCr middle.loneCr := (applyLoneCr_eq_ok_iff.mp hfirst).1
      obtain ⟨text, hset, hne, ⟨hmeaning, rfl⟩ | ⟨value, hmeaning, hrange, rfl⟩⟩ :=
        applyIntBits_eq_error_iff.mp hsecond
      · exact .intBits hcr hset hne hmeaning
      · exact .range hcr hset hne hmeaning hrange
  · have hmiddle {loneCr : Bool} (hcr : LoneCrGiven env.loneCr loneCr) :
        env.applyLoneCr (.named filename) = .ok { Options.named filename with loneCr } :=
      applyLoneCr_eq_ok_iff.mpr ⟨hcr, rfl, rfl⟩
    rintro (⟨hset, hne, hmeaning⟩ | ⟨hcr, hset, hne, hmeaning⟩ | ⟨hcr, hset, hne, hmeaning, hrange⟩)
    · exact .inl (applyLoneCr_eq_error_iff.mpr ⟨_, hset, hne, hmeaning, rfl⟩)
    · exact .inr ⟨_, hmiddle hcr,
        applyIntBits_eq_error_iff.mpr ⟨_, hset, hne, .inl ⟨hmeaning, rfl⟩⟩⟩
    · exact .inr ⟨_, hmiddle hcr,
        applyIntBits_eq_error_iff.mpr ⟨_, hset, hne, .inr ⟨_, hmeaning, hrange, rfl⟩⟩⟩

theorem options_of_given (env : Environment) {loneCr : Bool} {bits : Nat}
    (hcr : LoneCrGiven env.loneCr loneCr) (hbits : IntBitsGiven env.intBits bits) :
    env.options filename = .ok ⟨filename, loneCr, bits, intBitsGiven_range hbits⟩ :=
  options_eq_ok_iff.mpr ⟨hcr, hbits, rfl⟩

end Results

/-- An environment comes to just the options that its settings are given as, and is refused for just
the errors named. -/
theorem options_accepts (env : Environment) (filename : String) :
    (∀ options, env.options filename = .ok options ↔
      LoneCrGiven env.loneCr options.loneCr ∧ IntBitsGiven env.intBits options.intBits ∧
        options.filename = filename) ∧
    ∀ error, env.options filename = .error error ↔ Unusable env error :=
  ⟨fun _ => options_eq_ok_iff, fun _ => options_eq_error_iff⟩

/-- A separator that is white space is not set aside around a numeral. -/
theorem separator_behind_numeral_refused :
    NumeralText Text.isWhitespace "32\x1f".toList 32 ∧
      options { intBits := some "32\x1f" } "<input>" = .error (.invalidIntBits "32\x1f") := by
  refine ⟨⟨[], [['3', '2']], .inl rfl, ?_, by decide, ?_, by decide⟩, by decide +kernel⟩
  · exact digitGroups_cons.mpr ⟨⟨by decide, List.all_eq_true.mp (by decide)⟩, .inl rfl⟩
  · exact ⟨[], ['\x1f'], by simp, List.all_eq_true.mp (by decide), by decide⟩

end Environment

end Lexing
