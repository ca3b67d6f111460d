import Lexing.Environment
import Lexing.Proofs.Numerals

/-!
# Texts of settings

What a variable may hold: for a switch one of eight words in any case, for a width a decimal numeral
of any script, each with white space around it. Both are described without regard to how they are
read, and are then shown to be exactly what is read.
-/

namespace Lexing

/-- A text has some characters of a class on each side of its core. -/
def Surrounded (blank : Char → Bool) (core text : List Char) : Prop :=
  ∃ before after, (∀ c ∈ before, blank c = true) ∧ (∀ c ∈ after, blank c = true) ∧
    text = before ++ (core ++ after)

/-- A character is a letter of ASCII itself or its capital. -/
def CaseVariant (c letter : Char) : Prop :=
  c = letter ∨ 'A' ≤ c ∧ c ≤ 'Z' ∧ letter.toNat = c.toNat + 32

def switchWords : List (List Char × Bool) :=
  [("1".toList, true), ("true".toList, true), ("yes".toList, true), ("on".toList, true),
    ("0".toList, false), ("false".toList, false), ("no".toList, false), ("off".toList, false)]

/-- A text says a switch: one of the words in any case, with white space around it. -/
def SwitchText (text : List Char) (value : Bool) : Prop :=
  ∃ word spelled, (word, value) ∈ switchWords ∧ List.Forall₂ CaseVariant spelled word ∧
    Surrounded Text.isWhitespace spelled text

section NumeralDefs

open Numeral

/-- Groups of digits of any script, as single underscores keep them apart in a numeral. -/
structure DigitGroups (groups : List (List Char)) : Prop where
  ne_nil : groups ≠ []
  group_ne_nil : ∀ group ∈ groups, group ≠ []
  digit : ∀ group ∈ groups, ∀ c ∈ group, (digitValue? c).isSome

/-- The digits of all groups as a number in base ten. -/
def groupsValue (groups : List (List Char)) : Nat :=
  Nat.ofDigits 10 (groups.flatten.filterMap digitValue?).reverse

def EitherSign (sign : List Char) : Prop :=
  sign = [] ∨ sign = ['+'] ∨ sign = ['-']

def signed (sign : List Char) (n : Nat) : Int :=
  if sign = ['-'] then -n else n

/-- A text is a numeral with a value: an optional sign and groups of digits, not too many of them,
with blanks around it. -/
def NumeralText (blank : Char → Bool) (text : List Char) (value : Int) : Prop :=
  ∃ sign groups, EitherSign sign ∧ DigitGroups groups ∧ groups.flatten.length ≤ digitLimit ∧
    Surrounded blank (sign ++ ['_'].intercalate groups) text ∧
    value = signed sign (groupsValue groups)

end NumeralDefs

section LowerCase

/-- Visible characters of ASCII, no capitals, that no letter outside ASCII has as its small form. -/
@[mk_iff]
structure PlainLetter (c : Char) : Prop where
  visible : 0x21 ≤ c.toNat
  ascii : c.toNat < 0x80
  small : ¬ ('A' ≤ c ∧ c ≤ 'Z')
  ne_i : c ≠ 'i'
  ne_k : c ≠ 'k'

instance (c : Char) : Decidable (PlainLetter c) :=
  decidable_of_iff' _ (plainLetter_iff c)

/-- Within ASCII, the small form of a capital letter is 32 further, and all else is left as it is. -/
theorem lowerForm_ascii {c : Char} (hc : c.toNat < 0x80) : Text.lowerForm c =
    [if 'A' ≤ c ∧ c ≤ 'Z' then Char.ofNat (c.toNat + 32) else c] := by
  -- only the first run of capital letters is within ASCII
  have hruns : Text.caseRuns = ⟨0x41, 0x5A, 1, 32⟩ :: Text.caseRuns.tail := rfl
  have hfar : Text.caseRuns.tail.all (fun run => decide (0x80 ≤ run.first)) = true := by
    decide +kernel
  have htail : Text.caseRuns.tail.find? (·.holds c.toNat) = none := by
    refine List.find?_eq_none.mpr fun run hrun hholds => ?_
    have hfirst : 0x80 ≤ run.first := of_decide_eq_true (List.all_eq_true.mp hfar run hrun)
    simp only [Text.CaseRun.holds, Bool.and_eq_true, decide_eq_true_iff] at hholds
    omega
  have hcapital : Text.CaseRun.holds ⟨0x41, 0x5A, 1, 32⟩ c.toNat = true ↔ 'A' ≤ c ∧ c ≤ 'Z' := by
    simp only [Text.CaseRun.holds, Nat.mod_one, BEq.rfl, Bool.and_true, Bool.and_eq_true,
      decide_eq_true_iff]
    rfl
  have hdotted : c ≠ '\u0130' := by
    rintro rfl
    exact absurd hc (by decide)
  rw [Text.lowerForm, if_neg hdotted, Text.lowerChar, hruns, List.find?_cons, htail]
  split_ifs with h
  · rw [hcapital.mpr h]
    rfl
  · rw [Bool.eq_false_iff.mpr (mt hcapital.mp h)]

/-- Where the runs of capital letters outside ASCII lead: to the letter k, or out of ASCII too. -/
theorem caseRuns_target {run : Text.CaseRun} (h : run ∈ Text.caseRuns) :
    run.last < 0x80 ∨ (run.first = run.last ∧ run.first + run.shift = 0x6B) ∨
      0x80 ≤ run.first + run.shift ∧ (run.last + run.shift < 0xD800 ∨
        0xE000 ≤ run.first + run.shift ∧ run.last + run.shift < 0x110000) := by
  have hall : Text.caseRuns.all (fun run =>
      decide (run.last < 0x80 ∨ (run.first = run.last ∧ run.first + run.shift = 0x6B) ∨
        0x80 ≤ run.first + run.shift ∧ (run.last + run.shift < 0xD800 ∨
          0xE000 ≤ run.first + run.shift ∧ run.last + run.shift < 0x110000))) = true := by
    decide +kernel
  exact of_decide_eq_true (List.all_eq_true.mp hall run h)

/-- A letter outside ASCII has the small form k or one outside ASCII, but for the dotted capital I. -/
theorem lowerChar_of_not_ascii {c : Char} (hc : 0x80 ≤ c.toNat) :
    Text.lowerChar c = 'k' ∨ 0x80 ≤ (Text.lowerChar c).toNat := by
  unfold Text.lowerChar
  split
  · rename_i run hrun
    have hholds := List.find?_some hrun
    simp only [Text.CaseRun.holds, Bool.and_eq_true, decide_eq_true_iff] at hholds
    obtain ⟨⟨hfirst, hlast⟩, -⟩ := hholds
    rcases caseRuns_target (List.mem_of_find?_eq_some hrun) with hascii | ⟨hone, hk⟩ | ⟨hlow, hhigh⟩
    · omega
    · have htarget : (c.toNat + run.shift).toNat = 0x6B := by omega
      rw [htarget]
      exact .inl rfl
    · right
      have hvalid : ((c.toNat : Int) + run.shift).toNat.isValidChar := by
        unfold Nat.isValidChar
        omega
      rw [Char.toNat_ofNat, if_pos hvalid]
      omega
  · exact .inr hc

/-- Both letters of a case are visible characters of ASCII. -/
theorem CaseVariant.bounds {c letter : Char} (h : CaseVariant c letter) (hl : PlainLetter letter) :
    0x21 ≤ c.toNat ∧ c.toNat < 0x80 := by
  rcases h with rfl | ⟨hlow, hhigh, -⟩
  · exact ⟨hl.visible, hl.ascii⟩
  · have hA : 0x41 ≤ c.toNat := hlow
    have hZ : c.toNat ≤ 0x5A := hhigh
    omega

theorem lowerForm_cases (c : Char) :
    c = '\u0130' ∧ Text.lowerForm c = ['i', '\u0307'] ∨ Text.lowerForm c = [Text.lowerChar c] := by
  unfold Text.lowerForm
  split
  · exact .inl ⟨‹_›, rfl⟩
  · exact .inr rfl

/-- A plain letter is the small form of itself and of its capital only. -/
theorem lowerForm_append_eq_iff {c letter : Char} {text word : List Char} (hl : PlainLetter letter) :
    Text.lowerForm c ++ text = letter :: word ↔ CaseVariant c letter ∧ text = word := by
  rcases Nat.lt_or_ge c.toNat 0x80 with hc | hc
  · rw [lowerForm_ascii hc, List.singleton_append, List.cons.injEq]
    refine and_congr_left' ?_
    split
    · rename_i hcapital
      have hvalid : (c.toNat + 32).isValidChar := by
        unfold Nat.isValidChar
        omega
      have htarget : Char.ofNat (c.toNat + 32) = letter ↔ letter.toNat = c.toNat + 32 := by
        rw [← Char.toNat_inj, Char.toNat_ofNat, if_pos hvalid, eq_comm]
      rw [htarget]
      constructor
      · exact fun h => .inr ⟨hcapital.1, hcapital.2, h⟩
      · rintro (rfl | ⟨-, -, h⟩)
        · exact absurd hcapital hl.small
        · exact h
    · rename_i hcapital
      exact ⟨.inl, fun h => h.elim id fun hvariant => absurd ⟨hvariant.1, hvariant.2.1⟩ hcapital⟩
  · constructor
    · intro h
      exfalso
      rcases lowerForm_cases c with ⟨-, hform⟩ | hform
      · rw [hform] at h
        exact hl.ne_i (List.cons.inj h).1.symm
      · rw [hform] at h
        have hletter : Text.lowerChar c = letter := (List.cons.inj h).1
        rcases lowerChar_of_not_ascii hc with hk | hfar
        · exact hl.ne_k (hletter.symm.trans hk)
        · rw [hletter] at hfar
          exact absurd hl.ascii hfar.not_gt
    · exact fun h => absurd (h.1.bounds hl).2 hc.not_gt

theorem lower_eq_iff {text word : List Char} (hw : ∀ letter ∈ word, PlainLetter letter) :
    Text.lower text = word ↔ List.Forall₂ CaseVariant text word := by
  induction text generalizing word with
  | nil =>
    rw [List.forall₂_nil_left_iff]
    exact eq_comm
  | cons c text ih =>
    cases word with
    | nil =>
      have hsome : Text.lowerForm c ≠ [] := by
        rcases lowerForm_cases c with ⟨-, hform⟩ | hform <;> simp [hform]
      simp [Text.lower, hsome]
    | cons letter word =>
      obtain ⟨hl, hmore⟩ := List.forall_mem_cons.mp hw
      rw [Text.lower, List.flatMap_cons, lowerForm_append_eq_iff hl, List.forall₂_cons,
        ← ih hmore, Text.lower]

end LowerCase

section Trimming

variable {blank : Char → Bool} {core text : List Char}

theorem surrounded_trim (blank : Char → Bool) (text : List Char) :
    Surrounded blank (Text.trim blank text) text := by
  let front := text.dropWhile blank
  refine ⟨text.takeWhile blank, (front.reverse.takeWhile blank).reverse,
    fun c hc => List.mem_takeWhile_imp hc,
    fun c hc => List.mem_takeWhile_imp (List.mem_reverse.mp hc), ?_⟩
  rw [Text.trim, ← List.reverse_append, List.takeWhile_append_dropWhile, List.reverse_reverse,
    List.takeWhile_append_dropWhile]

/-- A core without blanks is what trimming leaves. -/
theorem Surrounded.trim_eq (h : Surrounded blank core text) (hne : core ≠ [])
    (hcore : ∀ c ∈ core, blank c = false) : Text.trim blank text = core := by
  obtain ⟨before, after, hbefore, hafter, rfl⟩ := h
  have hfront : EndsRun blank (core ++ after).head? := by
    rw [List.head?_append_of_ne_nil _ hne]
    exact fun c hc => hcore c (List.mem_of_head? hc)
  have hback : EndsRun blank core.reverse.head? := by
    rw [List.head?_reverse]
    exact fun c hc => hcore c (List.mem_of_getLast? hc)
  have hafter' : ∀ c ∈ after.reverse, blank c = true := fun c hc => hafter c (List.mem_reverse.mp hc)
  rw [Text.trim, dropWhile_run hbefore hfront, List.reverse_append, dropWhile_run hafter' hback,
    List.reverse_reverse]

end Trimming

section Switches

variable {text : List Char} {value : Bool}

private theorem switchWords_plain {entry : List Char × Bool} (h : entry ∈ switchWords) :
    entry.1 ≠ [] ∧ ∀ letter ∈ entry.1, PlainLetter letter := by
  have hall : switchWords.all (fun entry =>
      !entry.1.isEmpty && entry.1.all fun letter => decide (PlainLetter letter)) = true := by
    decide +kernel
  have hentry := List.all_eq_true.mp hall entry h
  rw [Bool.and_eq_true, Bool.not_eq_true', List.isEmpty_eq_false_iff, List.all_eq_true] at hentry
  exact ⟨hentry.1, fun letter hl => of_decide_eq_true (hentry.2 letter hl)⟩

private theorem isWhitespace_of_ascii {c : Char} (h : 0x21 ≤ c.toNat) (hc : c.toNat < 0x80) :
    Text.isWhitespace c = false := by
  simp only [Text.isWhitespace, Text.isNumeralBlank, Text.isInformationSeparator,
    Bool.or_eq_false_iff, Bool.and_eq_false_iff, decide_eq_false_iff_not, beq_eq_false_iff_ne]
  omega

/-- No letter of a word is blank, in either case. -/
private theorem isWhitespace_of_spelled {spelled word : List Char}
    (hw : ∀ letter ∈ word, PlainLetter letter) (h : List.Forall₂ CaseVariant spelled word) :
    ∀ c ∈ spelled, Text.isWhitespace c = false := by
  induction h with
  | nil => simp
  | cons hvariant _ ih =>
    obtain ⟨hl, hmore⟩ := List.forall_mem_cons.mp hw
    obtain ⟨hlow, hhigh⟩ := hvariant.bounds hl
    exact List.forall_mem_cons.mpr ⟨isWhitespace_of_ascii hlow hhigh, ih hmore⟩

theorem readSwitch?_eq_some_iff_mem : Environment.readSwitch? text = some value ↔
    (Text.lower (Text.trim Text.isWhitespace text), value) ∈ switchWords := by
  unfold Environment.readSwitch?
  generalize Text.lower (Text.trim Text.isWhitespace text) = word
  have hword (given : String) : String.ofList word = given ↔ word = given.toList := by
    rw [← String.toList_inj, String.toList_ofList]
  simp only [switchWords, List.contains_cons, List.contains_nil, Bool.or_false, Bool.or_eq_true,
    beq_iff_eq, hword, List.mem_cons, List.not_mem_nil, or_false, Prod.mk.injEq]
  split
  · rename_i hon
    rcases hon with rfl | rfl | rfl | rfl <;> cases value <;> decide
  · rename_i hon
    split
    · rename_i hoff
      rcases hoff with rfl | rfl | rfl | rfl <;> cases value <;> decide
    · rename_i hoff
      push Not at hon hoff
      simp only [hon, hoff, false_and, or_false, reduceCtorEq]

/-- A switch is read off exactly the texts that say it. -/
theorem readSwitch?_eq_some_iff : Environment.readSwitch? text = some value ↔ SwitchText text value := by
  rw [readSwitch?_eq_some_iff_mem]
  constructor
  · intro hmem
    have hplain := (switchWords_plain hmem).2
    exact ⟨_, _, hmem, (lower_eq_iff hplain).mp rfl, surrounded_trim _ _⟩
  · rintro ⟨word, spelled, hmem, hspelled, hsurrounded⟩
    obtain ⟨hne, hplain⟩ := switchWords_plain hmem
    have hspelled_ne : spelled ≠ [] := by
      rintro rfl
      exact hne (List.forall₂_nil_left_iff.mp hspelled)
    have htrim : Text.trim Text.isWhitespace text = spelled :=
      hsurrounded.trim_eq hspelled_ne (isWhitespace_of_spelled hplain hspelled)
    rw [htrim, (lower_eq_iff hplain).mpr hspelled]
    exact hmem

end Switches

section Numerals

open Numeral

variable {text group rest : List Char} {groups : List (List Char)} {c : Char} {value : Int}

/-- A digit is one of the ten of some script. -/
theorem exists_first_of_digit (h : (digitValue? c).isSome) :
    ∃ first ∈ digitZeros, ∃ k < 10, c = Char.ofNat (first + k) := by
  obtain ⟨value, hvalue⟩ := Option.isSome_iff_exists.mp h
  obtain ⟨first, hfind, -⟩ := Option.map_eq_some_iff.mp hvalue
  have hblock := List.find?_some hfind
  simp only [Bool.and_eq_true, decide_eq_true_iff] at hblock
  refine ⟨first, List.mem_of_find?_eq_some hfind, c.toNat - first, by omega, ?_⟩
  rw [Nat.add_sub_cancel' hblock.1, Char.ofNat_toNat]

/-- No digit of any script is an underscore, a sign or a blank. -/
theorem digit_plain (h : (digitValue? c).isSome) :
    c ≠ '_' ∧ c ≠ '+' ∧ c ≠ '-' ∧ Text.isNumeralBlank c = false := by
  have hall : digitZeros.all (fun first => (List.range 10).all fun k =>
      let c := Char.ofNat (first + k)
      c != '_' && c != '+' && c != '-' && !Text.isNumeralBlank c) = true := by
    decide +kernel
  obtain ⟨first, hfirst, k, hk, rfl⟩ := exists_first_of_digit h
  have hplain := List.all_eq_true.mp (List.all_eq_true.mp hall first hfirst) k (List.mem_range.mpr hk)
  simp only [Bool.and_eq_true, bne_iff_ne, Bool.not_eq_true'] at hplain
  exact ⟨hplain.1.1.1, hplain.1.1.2, hplain.1.2, hplain.2⟩

theorem digitValues?_singleton (c : Char) : digitValues? [c] = (digitValue? c).map ([·]) := by
  cases hvalue : digitValue? c <;> simp [digitValues?, hvalue]

theorem digitValues?_cons_underscore (c : Char) (more : List Char) : digitValues? (c :: '_' :: more) =
    (digitValue? c).bind fun d => (digitValues? more).map (d :: ·) := by
  cases hvalue : digitValue? c <;> simp [digitValues?, hvalue]

theorem digitValues?_cons_cons {d : Char} (hd : d ≠ '_') (c : Char) (more : List Char) :
    digitValues? (c :: d :: more) =
      (digitValue? c).bind fun value => (digitValues? (d :: more)).map (value :: ·) := by
  cases hvalue : digitValue? c <;> simp [digitValues?, hvalue, hd]

/-- Digits in front of a rest give their values in front of what that rest gives after a digit. -/
theorem digitValues?_group_append {values : Option (List Nat)} (hne : group ≠ [])
    (hgroup : ∀ c ∈ group, (digitValue? c).isSome)
    (hrest : ∀ c, digitValues? (c :: rest) = (digitValue? c).bind fun d => values.map (d :: ·)) :
    digitValues? (group ++ rest) = values.map (group.filterMap digitValue? ++ ·) := by
  induction group with
  | nil => exact absurd rfl hne
  | cons c group ih =>
    obtain ⟨hc, hmore⟩ := List.forall_mem_cons.mp hgroup
    obtain ⟨d, hd⟩ := Option.isSome_iff_exists.mp hc
    cases group with
    | nil => simp [hrest, hd]
    | cons c' group =>
      have hc' := (digit_plain (hmore c' List.mem_cons_self)).1
      rw [List.cons_append, List.cons_append, digitValues?_cons_cons hc', ← List.cons_append,
        ih (List.cons_ne_nil _ _) hmore, List.filterMap_cons_some hd, hd]
      simp [Function.comp_def]

theorem digitGroups_cons : DigitGroups (group :: groups) ↔
    (group ≠ [] ∧ ∀ c ∈ group, (digitValue? c).isSome) ∧ (groups = [] ∨ DigitGroups groups) := by
  constructor
  · rintro ⟨-, hgroups, hdigits⟩
    obtain ⟨hgroup, hothers⟩ := List.forall_mem_cons.mp hgroups
    obtain ⟨hdigit, hmore⟩ := List.forall_mem_cons.mp hdigits
    exact ⟨⟨hgroup, hdigit⟩, or_iff_not_imp_left.mpr fun hne => ⟨hne, hothers, hmore⟩⟩
  · rintro ⟨⟨hgroup, hdigit⟩, rfl | h⟩
    · exact ⟨List.cons_ne_nil _ _, by simpa, by simpa⟩
    · exact ⟨List.cons_ne_nil _ _, List.forall_mem_cons.mpr ⟨hgroup, h.group_ne_nil⟩,
        List.forall_mem_cons.mpr ⟨hdigit, h.digit⟩⟩

theorem digitValues?_intercalate (h : DigitGroups groups) :
    digitValues? (['_'].intercalate groups) = some (groups.flatten.filterMap digitValue?) := by
  induction groups with
  | nil => exact absurd rfl h.ne_nil
  | cons group groups ih =>
    obtain ⟨⟨hne, hdigit⟩, rfl | hmore⟩ := digitGroups_cons.mp h
    · have hsingle (c : Char) :
          digitValues? [c] = (digitValue? c).bind fun d => (some []).map (d :: ·) := by
        rw [digitValues?_singleton]
        cases digitValue? c <;> rfl
      simpa using digitValues?_group_append hne hdigit hsingle
    · rw [List.intercalate_cons_of_ne_nil hmore.ne_nil, List.append_assoc, List.singleton_append,
        digitValues?_group_append hne hdigit fun c => digitValues?_cons_underscore c _, ih hmore,
        List.flatten_cons, List.filterMap_append]
      rfl

/-- Values are read off a text in groups of digits only. -/
theorem exists_groups {values : List Nat} (h : digitValues? text = some values) :
    ∃ groups, DigitGroups groups ∧ text = ['_'].intercalate groups := by
  fun_induction digitValues? text generalizing values with
  | case1 => cases h
  | case2 => cases h
  | case3 c d hc =>
    refine ⟨[[c]], digitGroups_cons.mpr ⟨⟨List.cons_ne_nil _ _, ?_⟩, .inl rfl⟩, by simp⟩
    simp [hc]
  | case4 c d more hc ih =>
    obtain ⟨_, hmore, -⟩ := Option.map_eq_some_iff.mp h
    obtain ⟨groups, hgroups, rfl⟩ := ih hmore
    refine ⟨[c] :: groups, digitGroups_cons.mpr ⟨⟨List.cons_ne_nil _ _, ?_⟩, .inr hgroups⟩, ?_⟩
    · simp [hc]
    · simp [List.intercalate_cons_of_ne_nil hgroups.ne_nil]
  | case5 c d more _ _ hc ih =>
    -- the digit joins the first group of the rest
    obtain ⟨_, hmore, -⟩ := Option.map_eq_some_iff.mp h
    obtain ⟨groups, hgroups, rfl⟩ := ih hmore
    obtain ⟨group, others, rfl⟩ := List.exists_cons_of_ne_nil hgroups.ne_nil
    obtain ⟨⟨-, hdigit⟩, hothers⟩ := digitGroups_cons.mp hgroups
    refine ⟨(c :: group) :: others, digitGroups_cons.mpr ⟨⟨List.cons_ne_nil _ _, ?_⟩, hothers⟩, ?_⟩
    · exact List.forall_mem_cons.mpr ⟨by simp [hc], hdigit⟩
    · rcases hothers with rfl | hothers
      · simp
      · simp [List.intercalate_cons_of_ne_nil hothers.ne_nil]

theorem forall_mem_intercalate {p : Char → Prop} (hp : p '_')
    (h : ∀ group ∈ groups, ∀ c ∈ group, p c) : ∀ c ∈ ['_'].intercalate groups, p c := by
  induction groups with
  | nil => simp
  | cons group groups ih =>
    obtain ⟨hgroup, hothers⟩ := List.forall_mem_cons.mp h
    rcases eq_or_ne groups [] with rfl | hne
    · simpa using hgroup
    · rw [List.intercalate_cons_of_ne_nil hne]
      exact List.forall_mem_append.mpr
        ⟨List.forall_mem_append.mpr ⟨hgroup, List.forall_mem_singleton.mpr hp⟩, ih hothers⟩

/-- A numeral without a sign begins with a digit. -/
theorem DigitGroups.exists_cons (h : DigitGroups groups) :
    ∃ c rest, ['_'].intercalate groups = c :: rest ∧ (digitValue? c).isSome := by
  obtain ⟨group, others, rfl⟩ := List.exists_cons_of_ne_nil h.ne_nil
  obtain ⟨⟨hne, hdigit⟩, hothers⟩ := digitGroups_cons.mp h
  obtain ⟨c, group, rfl⟩ := List.exists_cons_of_ne_nil hne
  have hc := hdigit c List.mem_cons_self
  rcases hothers with rfl | hothers
  · exact ⟨c, group, by simp, hc⟩
  · exact ⟨c, _, by rw [List.intercalate_cons_of_ne_nil hothers.ne_nil]; rfl, hc⟩

theorem DigitGroups.length_values (h : DigitGroups groups) :
    (groups.flatten.filterMap digitValue?).length = groups.flatten.length :=
  List.filterMap_length_eq_length.mpr (List.forall_mem_flatten.mpr h.digit)

theorem ofDigits_eq (values : List Nat) : ofDigits values = Nat.ofDigits 10 values.reverse := by
  rw [Nat.ofDigits_eq_foldr, List.foldr_reverse, ofDigits]
  congr 1
  funext n d
  rw [Nat.mul_comm, Nat.add_comm]
  rfl

theorem readNatural?_eq_some_iff {n : Nat} : readNatural? text = some n ↔ ∃ groups,
    DigitGroups groups ∧ groups.flatten.length ≤ digitLimit ∧ text = ['_'].intercalate groups ∧
      n = groupsValue groups := by
  constructor
  · intro h
    rw [readNatural?] at h
    split at h
    · rename_i values hvalues
      obtain ⟨groups, hgroups, rfl⟩ := exists_groups hvalues
      obtain rfl := Option.some.inj ((digitValues?_intercalate hgroups).symm.trans hvalues)
      rw [hgroups.length_values, ofDigits_eq, Option.ite_none_right_eq_some, Option.some.injEq] at h
      exact ⟨groups, hgroups, h.1, rfl, h.2.symm⟩
    · cases h
  · rintro ⟨groups, hgroups, hlength, rfl, rfl⟩
    rw [readNatural?, digitValues?_intercalate hgroups]
    simp only
    rw [hgroups.length_values, if_pos hlength, ofDigits_eq, groupsValue]

/-- Reading takes a sign off, where there is one, and reads the digits behind it. -/
theorem readInteger?_signed {sign digits : List Char} (hsign : EitherSign sign)
    (hfirst : sign = [] → ∀ c ∈ digits.head?, c ≠ '+' ∧ c ≠ '-')
    (htrim : Text.trim Text.isNumeralBlank text = sign ++ digits) :
    readInteger? text = (readNatural? digits).map (signed sign) := by
  rw [readInteger?, htrim]
  rcases hsign with rfl | rfl | rfl
  · split
    · exact absurd rfl (hfirst rfl '-' (by simp_all)).2
    · exact absurd rfl (hfirst rfl '+' (by simp_all)).1
    · rfl
  · rfl
  · cases hread : readNatural? digits <;> simp [hread, signed]

theorem exists_sign (core : List Char) : ∃ sign digits, EitherSign sign ∧ core = sign ++ digits ∧
    (sign = [] → ∀ c ∈ digits.head?, c ≠ '+' ∧ c ≠ '-') := by
  by_cases hplus : core.head? = some '+'
  · obtain ⟨digits, rfl⟩ := List.head?_eq_some_iff.mp hplus
    exact ⟨['+'], digits, .inr (.inl rfl), rfl, by simp⟩
  by_cases hminus : core.head? = some '-'
  · obtain ⟨digits, rfl⟩ := List.head?_eq_some_iff.mp hminus
    exact ⟨['-'], digits, .inr (.inr rfl), rfl, by simp⟩
  refine ⟨[], core, .inl rfl, rfl, fun _ c hc => ⟨?_, ?_⟩⟩
  · rintro rfl
    exact hplus hc
  · rintro rfl
    exact hminus hc

theorem isNumeralBlank_of_mem_numeral {sign : List Char} (hsign : EitherSign sign)
    (hgroups : DigitGroups groups) :
    ∀ c ∈ sign ++ ['_'].intercalate groups, Text.isNumeralBlank c = false := by
  refine List.forall_mem_append.mpr ⟨?_, forall_mem_intercalate (by decide) fun group hgroup c hc =>
    (digit_plain (hgroups.digit group hgroup c hc)).2.2.2⟩
  rcases hsign with rfl | rfl | rfl <;> simp [Text.isNumeralBlank]

/-- An integer is read off exactly the texts that are a numeral with that value. -/
theorem readInteger?_eq_some_iff :
    readInteger? text = some value ↔ NumeralText Text.isNumeralBlank text value := by
  constructor
  · intro h
    obtain ⟨sign, digits, hsign, hcore, hfirst⟩ := exists_sign (Text.trim Text.isNumeralBlank text)
    rw [readInteger?_signed hsign hfirst hcore] at h
    obtain ⟨n, hn, rfl⟩ := Option.map_eq_some_iff.mp h
    obtain ⟨groups, hgroups, hlength, rfl, rfl⟩ := readNatural?_eq_some_iff.mp hn
    exact ⟨sign, groups, hsign, hgroups, hlength, hcore ▸ surrounded_trim _ text, rfl⟩
  · rintro ⟨sign, groups, hsign, hgroups, hlength, hsurrounded, rfl⟩
    have hread := readNatural?_eq_some_iff.mpr ⟨groups, hgroups, hlength, rfl, rfl⟩
    obtain ⟨c, rest, hcons, hc⟩ := hgroups.exists_cons
    have hne : sign ++ ['_'].intercalate groups ≠ [] := by simp [hcons]
    have htrim := hsurrounded.trim_eq hne (isNumeralBlank_of_mem_numeral hsign hgroups)
    rw [readInteger?_signed hsign ?_ htrim, hread, Option.map_some]
    intro _ first hmem
    rw [hcons, List.head?_cons, Option.mem_some] at hmem
    subst hmem
    exact ⟨(digit_plain hc).2.1, (digit_plain hc).2.2.1⟩

end Numerals

end Lexing
