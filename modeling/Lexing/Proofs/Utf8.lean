import Mathlib
import Lexing.Text.Utf8

/-!
# What can be decoded

Decoding undoes UTF-8 and accepts nothing else. A character is written in a first byte and up to
three more; the ranges of some first bytes keep out what could be written in fewer bytes, and what
is no character.
-/

namespace Lexing.Text.Utf8

/-- A text in UTF-8. -/
def encode (text : List Char) : List UInt8 :=
  text.flatMap String.utf8EncodeChar

def Continues (b : UInt8) : Prop := 0x80 ≤ b.toNat ∧ b.toNat ≤ 0xBF

/-- A first byte and the bytes behind it that write a character with it. -/
inductive WellFormed : UInt8 → List UInt8 → Prop
  | one {first : UInt8} (hf : first.toNat < 0x80) : WellFormed first []
  | two {first b : UInt8} (hf : 0xC2 ≤ first.toNat ∧ first.toNat < 0xE0) (hb : Continues b) :
      WellFormed first [b]
  | three {first b c : UInt8} (hf : 0xE0 ≤ first.toNat ∧ first.toNat < 0xF0) (hb : Continues b)
      (hlow : first.toNat = 0xE0 → 0xA0 ≤ b.toNat) (hhigh : first.toNat = 0xED → b.toNat ≤ 0x9F)
      (hc : Continues c) : WellFormed first [b, c]
  | four {first b c d : UInt8} (hf : 0xF0 ≤ first.toNat ∧ first.toNat ≤ 0xF4) (hb : Continues b)
      (hlow : first.toNat = 0xF0 → 0x90 ≤ b.toNat) (hhigh : first.toNat = 0xF4 → b.toNat ≤ 0x8F)
      (hc : Continues c) (hd : Continues d) : WellFormed first [b, c, d]

section Followers

/-- A byte is in a range. -/
private def InRange (range : UInt8 × UInt8) (b : UInt8) : Prop := range.1 ≤ b ∧ b ≤ range.2

private theorem checkFollowers_append {ranges : List (UInt8 × UInt8)} {others : List UInt8}
    (h : List.Forall₂ InRange ranges others) (rest : List UInt8) :
    checkFollowers ranges (others ++ rest) = (others.length, none) := by
  induction h with
  | nil => rfl
  | @cons range b _ _ hb _ ih =>
    have hin : range.1 ≤ b ∧ b ≤ range.2 := hb
    rw [List.cons_append, checkFollowers, if_pos hin, ih, List.length_cons]

private theorem forall₂_of_checkFollowers {ranges : List (UInt8 × UInt8)} {bytes : List UInt8}
    {met : Nat} (h : checkFollowers ranges bytes = (met, none)) :
    met ≤ bytes.length ∧ List.Forall₂ InRange ranges (bytes.take met) := by
  induction ranges generalizing bytes met with
  | nil =>
    obtain rfl : 0 = met := (Prod.mk.inj h).1
    exact ⟨Nat.zero_le _, .nil⟩
  | cons range ranges ih =>
    obtain ⟨low, high⟩ := range
    cases bytes with
    | nil => cases h
    | cons b bytes =>
      rw [checkFollowers] at h
      split at h
      · rename_i hb
        obtain ⟨rfl, hreason⟩ := Prod.mk.inj h
        obtain ⟨hle, hall⟩ := ih (Prod.ext rfl hreason)
        exact ⟨Nat.succ_le_succ hle, .cons hb hall⟩
      · cases h

private theorem inRange_iff {low high b : UInt8} :
    InRange (low, high) b ↔ low.toNat ≤ b.toNat ∧ b.toNat ≤ high.toNat := by
  rw [InRange, UInt8.le_iff_toNat_le, UInt8.le_iff_toNat_le]

/-- The range of a second byte, which the first byte may cut at either end. -/
private def secondRange (first : UInt8) (least low most high : Nat) : UInt8 × UInt8 :=
  (if first.toNat = least then .ofNat low else 0x80, if first.toNat = most then .ofNat high else 0xBF)

private theorem inRange_second_iff {first b : UInt8} {least low most high : Nat}
    (hlow : 0x80 ≤ low ∧ low < 0x100) (hhigh : high ≤ 0xBF) :
    InRange (secondRange first least low most high) b ↔ Continues b ∧
      (first.toNat = least → low ≤ b.toNat) ∧ (first.toNat = most → b.toNat ≤ high) := by
  have hlow' : (UInt8.ofNat low).toNat = low := by
    rw [UInt8.toNat_ofNat']
    exact Nat.mod_eq_of_lt hlow.2
  have hhigh' : (UInt8.ofNat high).toNat = high := by
    rw [UInt8.toNat_ofNat']
    exact Nat.mod_eq_of_lt (by omega)
  rw [secondRange, inRange_iff, Continues]
  split_ifs <;> simp only [hlow', hhigh', UInt8.reduceToNat] <;> omega

private theorem followers?_eq (first : UInt8) : followers? first =
    if first.toNat < 0x80 then some []
    else if first.toNat < 0xC2 then none
    else if first.toNat < 0xE0 then some [(0x80, 0xBF)]
    else if first.toNat < 0xF0 then some [secondRange first 0xE0 0xA0 0xED 0x9F, (0x80, 0xBF)]
    else if first.toNat ≤ 0xF4 then
      some [secondRange first 0xF0 0x90 0xF4 0x8F, (0x80, 0xBF), (0x80, 0xBF)]
    else none := by
  unfold followers? secondRange
  simp only [UInt8.lt_iff_toNat_lt, ← UInt8.toNat_inj, UInt8.reduceToNat]
  split_ifs <;> first | rfl | omega

/-- The bytes behind a first one meet its ranges exactly if they write a character with it. -/
private theorem forall₂_followers_iff {first : UInt8} {others : List UInt8} :
    (∃ ranges, followers? first = some ranges ∧ List.Forall₂ InRange ranges others) ↔
      WellFormed first others := by
  rw [followers?_eq]
  constructor
  · rintro ⟨ranges, hranges, h⟩
    split_ifs at hranges with h1 h2 h3 h4 h5
    · obtain rfl := Option.some.inj hranges
      cases h
      exact .one h1
    · obtain rfl := Option.some.inj hranges
      obtain _ | ⟨hb, _ | _⟩ := h
      exact .two (by omega) (inRange_iff.mp hb)
    · obtain rfl := Option.some.inj hranges
      obtain _ | ⟨hb, _ | ⟨hc, _ | _⟩⟩ := h
      obtain ⟨hb, hlow, hhigh⟩ := (inRange_second_iff (by decide) (by decide)).mp hb
      exact .three (by omega) hb hlow hhigh (inRange_iff.mp hc)
    · obtain rfl := Option.some.inj hranges
      obtain _ | ⟨hb, _ | ⟨hc, _ | ⟨hd, _ | _⟩⟩⟩ := h
      obtain ⟨hb, hlow, hhigh⟩ := (inRange_second_iff (by decide) (by decide)).mp hb
      exact .four (by omega) hb hlow hhigh (inRange_iff.mp hc) (inRange_iff.mp hd)
  · intro h
    cases h with
    | one hf => exact ⟨[], by rw [if_pos hf], .nil⟩
    | two hf hb =>
      rw [if_neg (by omega), if_neg (by omega), if_pos hf.2]
      exact ⟨_, rfl, .cons (inRange_iff.mpr hb) .nil⟩
    | three hf hb hlow hhigh hc =>
      rw [if_neg (by omega), if_neg (by omega), if_neg (by omega), if_pos hf.2]
      have hsecond := (inRange_second_iff (by decide) (by decide)).mpr ⟨hb, hlow, hhigh⟩
      exact ⟨_, rfl, .cons hsecond (.cons (inRange_iff.mpr hc) .nil)⟩
    | four hf hb hlow hhigh hc hd =>
      rw [if_neg (by omega), if_neg (by omega), if_neg (by omega), if_neg (by omega), if_pos hf.2]
      have hsecond := (inRange_second_iff (by decide) (by decide)).mpr ⟨hb, hlow, hhigh⟩
      exact ⟨_, rfl, .cons hsecond (.cons (inRange_iff.mpr hc) (.cons (inRange_iff.mpr hd) .nil))⟩

end Followers

section Characters

private theorem utf8EncodeChar_ofNat {n : Nat} (h : n.isValidChar) :
    String.utf8EncodeChar (Char.ofNat n) =
      if n ≤ 0x7F then [.ofNat n]
      else if n ≤ 0x7FF then [.ofNat (n / 64 % 32 + 192), .ofNat (n % 64 + 128)]
      else if n ≤ 0xFFFF then
        [.ofNat (n / 4096 % 16 + 224), .ofNat (n / 64 % 64 + 128), .ofNat (n % 64 + 128)]
      else
        [.ofNat (n / 262144 % 8 + 240), .ofNat (n / 4096 % 64 + 128), .ofNat (n / 64 % 64 + 128),
          .ofNat (n % 64 + 128)] := by
  have hn : (Char.ofNat n).val.toNat = n := (Char.toNat_ofNat n).trans (if_pos h)
  rw [String.utf8EncodeChar, hn]

private theorem ofNat_eq {n : Nat} {b : UInt8} (h : n = b.toNat) : UInt8.ofNat n = b := by
  rw [h, UInt8.ofNat_toNat]

/-- Bytes that write a character are its bytes in UTF-8. -/
theorem WellFormed.utf8EncodeChar_eq {first : UInt8} {others : List UInt8}
    (h : WellFormed first others) :
    String.utf8EncodeChar (Char.ofNat (codePoint first others)) = first :: others := by
  obtain ⟨n, hn⟩ : ∃ n, n = codePoint first others := ⟨_, rfl⟩
  rw [← hn]
  cases h with
  | one hf =>
    replace hn : n = first.toNat := hn
    rw [utf8EncodeChar_ofNat (.inl (by omega)), if_pos (by omega), ofNat_eq hn]
  | @two b hf hb =>
    obtain ⟨hb, hb'⟩ := hb
    replace hn : n = first.toNat % 0x20 * 0x40 + b.toNat % 0x40 := hn
    rw [utf8EncodeChar_ofNat (.inl (by omega)), if_neg (by omega), if_pos (by omega),
      ofNat_eq (b := first) (by omega), ofNat_eq (b := b) (by omega)]
  | @three b c hf hb hlow hhigh hc =>
    obtain ⟨hb, hb'⟩ := hb
    obtain ⟨hc, hc'⟩ := hc
    replace hn : n = (first.toNat % 0x10 * 0x40 + b.toNat % 0x40) * 0x40 + c.toNat % 0x40 := hn
    have hvalid : n.isValidChar := by
      rw [Nat.isValidChar]
      omega
    rw [utf8EncodeChar_ofNat hvalid, if_neg (by omega), if_neg (by omega), if_pos (by omega),
      ofNat_eq (b := first) (by omega), ofNat_eq (b := b) (by omega), ofNat_eq (b := c) (by omega)]
  | @four b c d hf hb hlow hhigh hc hd =>
    obtain ⟨hb, hb'⟩ := hb
    obtain ⟨hc, hc'⟩ := hc
    obtain ⟨hd, hd'⟩ := hd
    replace hn : n = ((first.toNat % 0x08 * 0x40 + b.toNat % 0x40) * 0x40 + c.toNat % 0x40) * 0x40 +
      d.toNat % 0x40 := hn
    rw [utf8EncodeChar_ofNat (.inr (by omega)), if_neg (by omega), if_neg (by omega),
      if_neg (by omega), ofNat_eq (b := first) (by omega), ofNat_eq (b := b) (by omega),
      ofNat_eq (b := c) (by omega), ofNat_eq (b := d) (by omega)]

private theorem toNat_ofNat {n : Nat} (h : n < 0x100) : (UInt8.ofNat n).toNat = n := by
  rw [UInt8.toNat_ofNat']
  exact Nat.mod_eq_of_lt h

/-- The bytes of a character write it, and no other one. -/
theorem wellFormed_utf8EncodeChar (c : Char) : ∃ first others,
    String.utf8EncodeChar c = first :: others ∧ WellFormed first others ∧
      Char.ofNat (codePoint first others) = c := by
  obtain ⟨n, hn⟩ : ∃ n, n = c.toNat := ⟨_, rfl⟩
  have hvalid : n.isValidChar := hn ▸ c.valid
  have hc : Char.ofNat n = c := hn ▸ Char.ofNat_toNat c
  rw [← hc, utf8EncodeChar_ofNat hvalid]
  rw [Nat.isValidChar] at hvalid
  have hlead := toNat_ofNat (n := n / 64 % 32 + 192) (by omega)
  have hlead' := toNat_ofNat (n := n / 4096 % 16 + 224) (by omega)
  have hlead'' := toNat_ofNat (n := n / 262144 % 8 + 240) (by omega)
  have hlast := toNat_ofNat (n := n % 64 + 128) (by omega)
  have hlast' := toNat_ofNat (n := n / 64 % 64 + 128) (by omega)
  have hlast'' := toNat_ofNat (n := n / 4096 % 64 + 128) (by omega)
  split_ifs with h1 h2 h3
  · have hone := toNat_ofNat (n := n) (by omega)
    exact ⟨_, _, rfl, .one (by omega), congrArg Char.ofNat hone⟩
  · refine ⟨_, _, rfl, .two (by omega) (by rw [Continues]; omega), congrArg Char.ofNat ?_⟩
    simp only [codePoint, leadBits, List.length_cons, List.length_nil, List.foldl_cons,
      List.foldl_nil, hlead, hlast]
    omega
  · refine ⟨_, _, rfl, .three (by omega) (by rw [Continues]; omega) (by omega) (by omega)
      (by rw [Continues]; omega), congrArg Char.ofNat ?_⟩
    simp only [codePoint, leadBits, List.length_cons, List.length_nil, List.foldl_cons,
      List.foldl_nil, hlead', hlast, hlast']
    omega
  · refine ⟨_, _, rfl, .four (by omega) (by rw [Continues]; omega) (by omega) (by omega)
      (by rw [Continues]; omega) (by rw [Continues]; omega), congrArg Char.ofNat ?_⟩
    simp only [codePoint, leadBits, List.length_cons, List.length_nil, List.foldl_cons,
      List.foldl_nil, hlead'', hlast, hlast', hlast'']
    omega

end Characters

section Texts

theorem decodeFrom_cons {first : UInt8} {others : List UInt8} (h : WellFormed first others)
    (start : Nat) (rest : List UInt8) : decodeFrom start (first :: (others ++ rest)) =
      (decodeFrom (start + others.length + 1) rest).map
        (Char.ofNat (codePoint first others) :: ·) := by
  obtain ⟨ranges, hranges, hall⟩ := forall₂_followers_iff.mpr h
  simp only [decodeFrom, hranges, checkFollowers_append hall, List.take_left, List.drop_left]

theorem decodeFrom_encode (start : Nat) (text : List Char) :
    decodeFrom start (encode text) = .ok text := by
  induction text generalizing start with
  | nil => rw [encode, List.flatMap_nil, decodeFrom]
  | cons c text ih =>
    obtain ⟨first, others, hbytes, hwell, hc⟩ := wellFormed_utf8EncodeChar c
    rw [encode, List.flatMap_cons, hbytes, List.cons_append, decodeFrom_cons hwell]
    rw [← encode, ih, hc]
    rfl

theorem eq_encode_of_decodeFrom {start : Nat} {bytes : List UInt8} {text : List Char}
    (h : decodeFrom start bytes = .ok text) : bytes = encode text := by
  induction start, bytes using decodeFrom.induct generalizing text with
  | case1 start =>
    rw [decodeFrom] at h
    obtain rfl := Except.ok.inj h
    rfl
  | case2 start first bytes hranges =>
    rw [decodeFrom, hranges] at h
    cases h
  | case3 start first bytes ranges hranges met reason hcheck =>
    rw [decodeFrom, hranges] at h
    simp only [hcheck] at h
    cases h
  | case4 start first bytes ranges hranges met hcheck ih =>
    rw [decodeFrom, hranges] at h
    simp only [hcheck] at h
    obtain ⟨-, hall⟩ := forall₂_of_checkFollowers hcheck
    have hwell := forall₂_followers_iff.mp ⟨ranges, hranges, hall⟩
    cases hrest : decodeFrom (start + met + 1) (bytes.drop met) with
    | error fault =>
      rw [hrest] at h
      cases h
    | ok more =>
      rw [hrest] at h
      obtain rfl := Except.ok.inj h
      rw [encode, List.flatMap_cons, hwell.utf8EncodeChar_eq, ← encode, ← ih hrest,
        List.cons_append, List.take_append_drop]

/-- Exactly the texts in UTF-8 are decoded, each to itself. -/
theorem decode_eq_ok_iff {bytes : List UInt8} {text : List Char} :
    decode bytes = .ok text ↔ bytes = encode text := by
  constructor
  · exact eq_encode_of_decodeFrom
  · rintro rfl
    exact decodeFrom_encode 0 text

end Texts

end Lexing.Text.Utf8
