import Lexing.Numeral.Integer
import Lexing.Proofs.Grammar

/-!
# Integers from their decimal digits

The text of an integer is read back as that integer, if it has no more digits than a numeral may
have.
-/

namespace Lexing.Numeral

section Digits

variable {text : List Char} {c : Char}

theorem digitValue?_of_digit (h : Digit c) : digitValue? c = some (c.toNat - '0'.toNat) := by
  have hlow : 0x30 ≤ c.toNat := h.1
  have hhigh : c.toNat < 0x30 + 10 := Nat.lt_succ_of_le h.2
  have hfirst : (0x30 ≤ c.toNat && c.toNat < 0x30 + 10) = true := by
    rw [decide_eq_true hlow, decide_eq_true hhigh, Bool.and_self]
  rw [digitValue?, digitZeros, List.find?_cons, hfirst]
  rfl

theorem isNumeralBlank_of_digit (h : Digit c) : Text.isNumeralBlank c = false := by
  have hlow : 0x30 ≤ c.toNat := h.1
  have hhigh : c.toNat ≤ 0x39 := h.2
  simp only [Text.isNumeralBlank, Bool.or_eq_false_iff, Bool.and_eq_false_iff, decide_eq_false_iff_not,
    beq_eq_false_iff_ne]
  omega

theorem digitValues?_of_digits (h : Digits text) :
    digitValues? text = some (text.map fun c => c.toNat - '0'.toNat) := by
  obtain ⟨hne, hdigits⟩ := h
  induction text with
  | nil => exact absurd rfl hne
  | cons c text ih =>
    obtain ⟨hc, htext⟩ := List.forall_mem_cons.mp hdigits
    have hvalue := digitValue?_of_digit hc
    cases text with
    | nil => simp [digitValues?, hvalue]
    | cons d text =>
      have hd : d ≠ '_' := by
        rintro rfl
        exact absurd (htext _ List.mem_cons_self).2 (by decide)
      have hmore := ih (List.cons_ne_nil _ _) htext
      simp [digitValues?, hvalue, hd, hmore]

theorem ofDigits_map_digits (text : List Char) :
    ofDigits (text.map fun c => c.toNat - '0'.toNat) = Nat.ofDigitChars 10 text 0 := by
  rw [ofDigits, List.foldl_map, Nat.ofDigitChars]
  congr 1
  funext n c
  rw [Nat.mul_comm]

theorem trim_eq_self {drop : Char → Bool} (h : ∀ c ∈ text, drop c = false) :
    Text.trim drop text = text := by
  have hkept {text : List Char} (h : ∀ c ∈ text, drop c = false) : text.dropWhile drop = text := by
    cases text with
    | nil => rfl
    | cons c text => rw [List.dropWhile_cons_of_neg (by simp [h])]
  rw [Text.trim, hkept h, hkept (by simpa using h), List.reverse_reverse]

end Digits

/-- What holds of the digits of a base holds of all digits of a number in that base. -/
theorem forall_mem_toDigits {p : Char → Prop} {base : Nat} (hb : 1 < base)
    (hp : ∀ k < base, p (Nat.digitChar k)) (n : Nat) : ∀ c ∈ Nat.toDigits base n, p c := by
  induction n using Nat.strong_induction_on with
  | _ n ih =>
    rw [Nat.toDigits_eq_if hb]
    split
    · rename_i hsmall
      simpa using hp n hsmall
    · rename_i hlarge
      intro c hc
      rcases List.mem_append.mp hc with hc | hc
      · exact ih (n / base) (Nat.div_lt_self (by omega) hb) c hc
      · rw [List.mem_singleton.mp hc]
        exact hp (n % base) (Nat.mod_lt n (by omega))

theorem digits_naturalText (n : Nat) : Digits (naturalText n) :=
  ⟨Nat.toDigits_ne_nil, fun _ hc =>
    isDigit_iff.mp (Nat.isDigit_of_mem_toDigits (by decide) (by decide) hc)⟩

/-- A natural number is read back from its digits. -/
theorem readNatural?_naturalText {n : Nat} (hn : n < 10 ^ digitLimit) :
    readNatural? (naturalText n) = some n := by
  have hlen : (naturalText n).length ≤ digitLimit :=
    (Nat.length_toDigits_le_iff (by decide) (by decide)).mpr hn
  have hvalue : Nat.ofDigitChars 10 (naturalText n) 0 = n :=
    Nat.ofDigitChars_toDigits (by decide) (by decide)
  rw [readNatural?, digitValues?_of_digits (digits_naturalText n)]
  change (if _ then _ else _) = _
  rw [List.length_map, if_pos hlen, ofDigits_map_digits, hvalue]

/-- An integer is read back from its text. -/
theorem readInteger?_integerText {n : Int} (hn : n.natAbs < 10 ^ digitLimit) :
    readInteger? (integerText n) = some n := by
  have hblank (m : Nat) : ∀ c ∈ naturalText m, Text.isNumeralBlank c = false :=
    fun c hc => isNumeralBlank_of_digit ((digits_naturalText m).2 c hc)
  have hsign {c : Char} {digits : List Char} {m : Nat} (h : naturalText m = c :: digits) : Digit c :=
    (digits_naturalText m).2 c (h ▸ List.mem_cons_self)
  cases n with
  | ofNat m =>
    have htrim : Text.trim Text.isNumeralBlank (integerText (.ofNat m)) = naturalText m :=
      trim_eq_self (hblank m)
    rw [readInteger?, htrim]
    split
    · rename_i hminus
      exact absurd (hsign hminus).1 (by decide)
    · rename_i hplus
      exact absurd (hsign hplus).1 (by decide)
    · exact congrArg (Option.map Int.ofNat) (readNatural?_naturalText hn)
  | negSucc m =>
    have htrim : Text.trim Text.isNumeralBlank (integerText (.negSucc m)) =
        '-' :: naturalText (m + 1) :=
      trim_eq_self (List.forall_mem_cons.mpr ⟨by decide, hblank (m + 1)⟩)
    rw [readInteger?, htrim]
    have hread : readNatural? (naturalText (m + 1)) = some (m + 1) := readNatural?_naturalText hn
    simp only [hread]
    rfl

end Lexing.Numeral
