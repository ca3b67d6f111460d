import Mathlib
import Lexing.Listing
import Lexing.Proofs.Numerals

/-!
# What listings are written in

The line of a token is made of printable characters, whatever the token's text. A JSON document is
made of those of ASCII, and of line feeds, which only the layout puts there.
-/

namespace Lexing

open Text

/-- A text of characters of one kind. -/
def Over (p : Char → Prop) (text : List Char) : Prop := ∀ c ∈ text, p c

/-- A text of printable characters. -/
abbrev Printed (text : List Char) : Prop := Over (fun c => isPrintable c = true) text

/-- The printable characters of ASCII. -/
def IsAscii (c : Char) : Prop := 0x20 ≤ c.toNat ∧ c.toNat < 0x7F

instance (c : Char) : Decidable (IsAscii c) :=
  inferInstanceAs (Decidable (_ ∧ _))

section Over

variable {p q : Char → Prop} {text more : List Char} {c : Char}

@[simp] theorem over_nil : Over p [] := by simp [Over]

@[simp] theorem over_cons : Over p (c :: text) ↔ p c ∧ Over p text := by
  simp [Over]

@[simp] theorem over_append : Over p (text ++ more) ↔ Over p text ∧ Over p more := by
  simp [Over, or_imp, forall_and]

theorem Over.mono (hp : ∀ c, p c → q c) (h : Over p text) : Over q text :=
  fun c hc => hp c (h c hc)

theorem Over.not_mem (h : Over p text) (hc : ¬ p c) : c ∉ text :=
  fun hmem => hc (h c hmem)

theorem Over.flatMap {α : Type} {f : α → List Char} {items : List α}
    (h : ∀ a ∈ items, Over p (f a)) : Over p (items.flatMap f) := by
  intro c hc
  obtain ⟨a, ha, hmem⟩ := List.mem_flatMap.mp hc
  exact h a ha c hmem

theorem Over.sublist (h : Over p more) (hs : text.Sublist more) : Over p text :=
  fun c hc => h c (hs.subset hc)

theorem Over.reverse (h : Over p text) : Over p text.reverse :=
  fun c hc => h c (List.mem_reverse.mp hc)

theorem Over.replicate (hc : p c) (n : Nat) : Over p (List.replicate n c) := by
  intro d hd
  rwa [List.eq_of_mem_replicate hd]

theorem Over.leftpad (hc : p c) (h : Over p text) (n : Nat) : Over p (text.leftpad n c) :=
  over_append.mpr ⟨.replicate hc _, h⟩

theorem Over.rightpad (hc : p c) (h : Over p text) (n : Nat) : Over p (text.rightpad n c) :=
  over_append.mpr ⟨h, .replicate hc _⟩

end Over

section Ascii

theorem ascii_toDigits {base : Nat} (hb : 1 < base ∧ base ≤ 16) (n : Nat) :
    Over IsAscii (Nat.toDigits base n) := by
  have hdigits : ∀ k < 16, IsAscii (Nat.digitChar k) := by decide
  exact Numeral.forall_mem_toDigits hb.1 (fun k hk => hdigits k (hk.trans_le hb.2)) n

theorem ascii_integerText (n : Int) : Over IsAscii (Numeral.integerText n) := by
  cases n with
  | ofNat n => exact ascii_toDigits (by decide) n
  | negSucc n => exact over_cons.mpr ⟨by decide, ascii_toDigits (by decide) (n + 1)⟩

theorem ascii_hexadecimal (width n : Nat) : Over IsAscii (hexadecimal width n) :=
  .leftpad (by decide) (ascii_toDigits (by decide) n) width

private theorem ascii_exponentText (exponent : Int) :
    Over IsAscii (Numeral.Binary64.exponentText exponent) := by
  rw [Numeral.Binary64.exponentText, over_cons]
  refine ⟨?_, .leftpad (by decide) (ascii_toDigits (by decide) _) 2⟩
  split <;> decide

private theorem ascii_positional {digits : List Char} (h : Over IsAscii digits) (point : Int) :
    Over IsAscii (Numeral.Binary64.positional digits point) := by
  have hzeros (n : Nat) : Over IsAscii (List.replicate n '0') := .replicate (by decide) n
  unfold Numeral.Binary64.positional
  split
  · simp only [over_cons, over_append]
    exact ⟨by decide, by decide, hzeros _, h⟩
  · dsimp only
    split
    · simp only [over_cons, over_append]
      exact ⟨⟨h, hzeros _⟩, by decide, by decide, over_nil⟩
    · rw [over_append, over_cons]
      exact ⟨h.sublist (List.take_sublist _ _), by decide, h.sublist (List.drop_sublist _ _)⟩

private theorem ascii_scientific {digits : List Char} (h : Over IsAscii digits) (exponent : Int) :
    Over IsAscii (Numeral.Binary64.scientific digits exponent) := by
  unfold Numeral.Binary64.scientific
  split
  · simp only [over_cons]
    exact ⟨by decide, by decide, by decide, over_nil⟩
  · rw [over_cons, over_cons]
    exact ⟨(over_cons.mp h).1, by decide, ascii_exponentText exponent⟩
  · obtain ⟨hd, hmore⟩ := over_cons.mp h
    rw [over_cons, over_cons, over_append, over_cons]
    exact ⟨hd, by decide, hmore, by decide, ascii_exponentText exponent⟩

theorem ascii_floatText (x : Numeral.Binary64) : Over IsAscii x.text := by
  have hdecimal (d : Numeral.Decimal) : Over IsAscii (Numeral.Binary64.layOut d) := by
    have hdigits : Over IsAscii (Nat.toDigits 10 d.digits) := ascii_toDigits (by decide) d.digits
    have hsignificant := (hdigits.reverse.sublist (List.dropWhile_sublist (· == '0'))).reverse
    unfold Numeral.Binary64.layOut
    dsimp only
    split
    · exact ascii_positional hsignificant _
    · exact ascii_scientific hsignificant _
  unfold Numeral.Binary64.text
  dsimp only
  split
  · exact over_cons.mpr ⟨by decide, hdecimal _⟩
  · exact hdecimal _

theorem ascii_stringText (value : List Char) : Over IsAscii (Json.stringText value) := by
  have hunit (unit : Nat) : Over IsAscii (Json.unitEscape unit) := by
    rw [Json.unitEscape, over_cons, over_cons]
    exact ⟨by decide, by decide, ascii_hexadecimal 4 unit⟩
  have hletter (c : Char) (h : IsAscii c) : Over IsAscii ['\\', c] := by
    rw [over_cons, over_cons]
    exact ⟨by decide, h, over_nil⟩
  have hchar (c : Char) : Over IsAscii (Json.escapeChar c) := by
    unfold Json.escapeChar
    split_ifs with _ _ _ _ _ _ _ hascii
    · exact hletter _ (by decide)
    · exact hletter _ (by decide)
    · exact hletter _ (by decide)
    · exact hletter _ (by decide)
    · exact hletter _ (by decide)
    · exact hletter _ (by decide)
    · exact hletter _ (by decide)
    · rw [over_cons]
      exact ⟨⟨hascii.1, by omega⟩, over_nil⟩
    · exact hunit _
    · exact over_append.mpr ⟨hunit _, hunit _⟩
  rw [Json.stringText, over_cons, over_append, over_cons]
  exact ⟨by decide, .flatMap fun c _ => hchar c, by decide, over_nil⟩

end Ascii

section Printed

theorem isPrintable_of_ascii {c : Char} (h : IsAscii c) : isPrintable c = true := by
  rw [isPrintable, if_pos h.2]
  exact decide_eq_true h.1

theorem Over.printed {text : List Char} (h : Over IsAscii text) : Printed text :=
  h.mono fun _ => isPrintable_of_ascii

theorem printed_placeText (line column : Int) : Printed (placeText line column) := by
  exact over_append.mpr ⟨(ascii_integerText line).printed,
    over_cons.mpr ⟨by decide, (ascii_integerText column).printed⟩⟩

theorem printed_quote (text : List Char) : Printed (quote text) := by
  have hdelimiter : isPrintable (quoteDelimiter text) = true := by
    unfold quoteDelimiter
    split <;> decide
  have hescape (c : Char) : Printed (codePointEscape c) := by
    unfold codePointEscape
    split_ifs <;> simp only [over_cons, (ascii_hexadecimal _ _).printed, and_true] <;> decide
  have hchar (c : Char) : Printed (quoteChar (quoteDelimiter text) c) := by
    unfold quoteChar
    split_ifs with hplain _ _ _ hprintable
    · rcases hplain with rfl | rfl
      · simpa using ⟨by decide, hdelimiter⟩
      · simp only [over_cons, over_nil]
        decide
    · simp only [over_cons, over_nil]
      decide
    · simp only [over_cons, over_nil]
      decide
    · simp only [over_cons, over_nil]
      decide
    · simpa using hprintable
    · exact hescape c
  exact over_cons.mpr ⟨hdelimiter,
    over_append.mpr ⟨.flatMap fun c _ => hchar c, by simpa using hdelimiter⟩⟩

theorem printed_shown (value : Value) : Printed value.shown := by
  have hnone : Printed ['N', 'o', 'n', 'e'] := by
    simp only [over_cons]
    exact ⟨by decide, by decide, by decide, by decide, over_nil⟩
  cases value with
  | integer value =>
    cases value with
    | none => exact hnone
    | some n => exact (ascii_integerText n).printed
  | real value =>
    cases value with
    | none => exact hnone
    | some x => exact (ascii_floatText x).printed
  | text value => exact printed_quote value

theorem printed_name (kind : TokenKind) : Printed kind.name.toList := by
  have hall : kind.name.toList.all isPrintable = true := by cases kind <;> decide +kernel
  exact List.all_eq_true.mp hall

/-- The line of a token holds no line feed and no control character, whatever its text. -/
theorem printed_line (t : Token) : Printed (Listing.line t) := by
  have hblank : isPrintable ' ' = true := by decide
  have hplace := Over.rightpad hblank (printed_placeText t.line t.column) 8
  unfold Listing.line
  dsimp only
  split
  · exact over_append.mpr ⟨hplace, printed_name _⟩
  · exact over_append.mpr
      ⟨over_append.mpr ⟨hplace, .rightpad hblank (printed_name _) 16⟩, printed_shown t.value⟩

end Printed

section Documents

/-- Lines of ASCII. -/
abbrev AsciiLines (text : List Char) : Prop := Over (fun c => IsAscii c ∨ c = '\n') text

theorem Over.lines {text : List Char} (h : Over IsAscii text) : AsciiLines text :=
  h.mono fun _ => .inl

theorem asciiLines_lineBreak (depth : Nat) : AsciiLines (Json.lineBreak depth) :=
  over_cons.mpr ⟨.inr rfl, (Over.replicate (by decide) _).lines⟩

/-- A document with one item a line holds no control characters but line feeds. -/
theorem asciiLines_write :
    (∀ depth document, AsciiLines (Json.write Json.oneItemPerLine depth document)) ∧
    (∀ depth members, AsciiLines (Json.writeMembers Json.oneItemPerLine depth members)) ∧
    ∀ depth items, AsciiLines (Json.writeItems Json.oneItemPerLine depth items) := by
  have hmarks : IsAscii '[' ∧ IsAscii ']' ∧ IsAscii '\x7b' ∧ IsAscii '\x7d' ∧ IsAscii ':' ∧
      IsAscii ' ' ∧ IsAscii ',' := by decide
  have hnull : IsAscii 'n' ∧ IsAscii 'u' ∧ IsAscii 'l' := by decide
  have hname (name : String) : AsciiLines (Json.stringText name.toList) :=
    (ascii_stringText name.toList).lines
  have hfirst : ∀ depth, AsciiLines (Json.oneItemPerLine.first depth) := asciiLines_lineBreak
  have hnext : ∀ depth, AsciiLines (Json.oneItemPerLine.next depth) := asciiLines_lineBreak
  have hlast : ∀ depth, AsciiLines (Json.oneItemPerLine.last depth) := asciiLines_lineBreak
  apply Json.write.mutual_induct
  case case1 =>
    intro depth
    simp only [Json.write, over_cons, hnull, over_nil, true_or, and_self]
  case case2 =>
    intro depth value
    rw [Json.write]
    exact (ascii_integerText value).lines
  case case3 =>
    intro depth value
    rw [Json.write]
    exact (ascii_floatText value).lines
  case case4 =>
    intro depth value
    rw [Json.write]
    exact (ascii_stringText value).lines
  case case5 =>
    intro depth
    simp only [Json.write, over_cons, hmarks, over_nil, true_or, and_self]
  case case6 =>
    intro depth item more hitem hmore
    simp only [Json.write, over_cons, over_append, hmarks, hitem, hmore, hfirst,
      hlast, over_nil, true_or, and_self]
  case case7 =>
    intro depth
    simp only [Json.write, over_cons, hmarks, over_nil, true_or, and_self]
  case case8 =>
    intro depth name item more hitem hmore
    simp only [Json.write, over_cons, over_append, hmarks, hname, hitem, hmore,
      hfirst, hlast, over_nil, true_or, and_self]
  case case9 =>
    intro depth
    rw [Json.writeItems]
    exact over_nil
  case case10 =>
    intro depth item more hitem hmore
    simp only [Json.writeItems, over_cons, over_append, hmarks, hitem, hmore, hnext,
      true_or, and_self]
  case case11 =>
    intro depth
    rw [Json.writeMembers]
    exact over_nil
  case case12 =>
    intro depth name item more hitem hmore
    simp only [Json.writeMembers, over_cons, over_append, hmarks, hname, hitem,
      hmore, hnext, over_nil, true_or, and_self]

theorem asciiLines_indented (document : Json) : AsciiLines document.indented :=
  asciiLines_write.1 0 document

theorem Json.write_within_items (layout : Json.Layout) (depth : Nat) {items : List Json}
    {item : Json} (h : item ∈ items) :
    Json.write layout depth item <:+: Json.writeItems layout depth items := by
  induction items with
  | nil => cases h
  | cons first more ih =>
    rw [Json.writeItems]
    rcases List.mem_cons.mp h with rfl | h
    · exact ⟨',' :: layout.next depth, Json.writeItems layout depth more, by simp⟩
    · refine (ih h).trans (List.IsSuffix.isInfix ?_)
      exact ⟨',' :: (layout.next depth ++ Json.write layout depth first), by simp⟩

/-- An item of an array is written there as it is, whatever the other items are. -/
theorem Json.write_within_array (layout : Json.Layout) (depth : Nat) {items : List Json} {item : Json}
    (h : item ∈ items) :
    Json.write layout (depth + 1) item <:+: Json.write layout depth (.array items) := by
  cases items with
  | nil => cases h
  | cons first more =>
    rw [Json.write]
    rcases List.mem_cons.mp h with rfl | h
    · exact ⟨'[' :: layout.first (depth + 1), Json.writeItems layout (depth + 1) more ++
        layout.last depth ++ [']'], by simp⟩
    · refine (Json.write_within_items layout (depth + 1) h).trans ?_
      exact ⟨'[' :: (layout.first (depth + 1) ++ Json.write layout (depth + 1) first),
        layout.last depth ++ [']'], by simp⟩

end Documents

end Lexing
