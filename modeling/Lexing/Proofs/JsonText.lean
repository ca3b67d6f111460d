import Lexing.Json
import Lexing.Proofs.NumberText

/-!
# What written JSON denotes

The text of a document denotes that document: its strings come back character by character from their
escapes, and its items and members one by one.
-/

namespace Lexing

open Document (Gap StringText UnitText HexDigit hexValue isSpace Derives Denotes escapes)

section Strings

theorem hexDigit_digitChar :
    ∀ n < 16, HexDigit (Nat.digitChar n) ∧ hexValue (Nat.digitChar n) = n := by
  unfold HexDigit
  decide

/-- The digits of a number in hexadecimal denote that number. -/
theorem hexValue_toDigits (n : Nat) :
    (Nat.toDigits 16 n).foldl (fun n d => n * 16 + hexValue d) 0 = n := by
  induction n using Nat.strong_induction_on with
  | _ n ih =>
    rw [Nat.toDigits_eq_if (by decide)]
    split
    · rename_i hsmall
      simp [hexDigit_digitChar n hsmall]
    · rename_i hlarge
      have hlast := (hexDigit_digitChar (n % 16) (Nat.mod_lt n (by decide))).2
      rw [List.foldl_append, ih (n / 16) (by omega), List.foldl_cons, List.foldl_nil, hlast]
      omega

/-- Zeros in front of the digits do not change the number. -/
theorem hexValue_hexadecimal (width n : Nat) :
    (Text.hexadecimal width n).foldl (fun n d => n * 16 + hexValue d) 0 = n := by
  have hzeros (k : Nat) : (List.replicate k '0').foldl (fun n d => n * 16 + hexValue d) 0 = 0 := by
    induction k with
    | zero => rfl
    | succ k ih =>
      rw [List.replicate_succ, List.foldl_cons]
      exact ih
  rw [Text.hexadecimal, List.leftpad, List.foldl_append, hzeros]
  exact hexValue_toDigits n

theorem length_hexadecimal {width n : Nat} (hw : 0 < width) (h : n < 16 ^ width) :
    (Text.hexadecimal width n).length = width := by
  have hlength : (Nat.toDigits 16 n).length ≤ width :=
    (Nat.length_toDigits_le_iff (by decide) hw).mpr h
  rw [Text.hexadecimal, List.length_leftpad, Nat.max_eq_left hlength]

/-- Four hexadecimal digits denote the unit that they are written for. -/
theorem unitText_hexadecimal {unit : Nat} (h : unit < 0x10000) :
    UnitText (Text.hexadecimal 4 unit) unit := by
  have hdigits : ∀ d ∈ Nat.toDigits 16 unit, HexDigit d :=
    Numeral.forall_mem_toDigits (by decide) (fun k hk => (hexDigit_digitChar k hk).1) unit
  refine ⟨length_hexadecimal (by decide) h, ?_, hexValue_hexadecimal 4 unit⟩
  intro d hd
  rcases List.mem_append.mp hd with hd | hd
  · rw [List.eq_of_mem_replicate hd]
    exact .inl (by decide)
  · exact hdigits d hd

theorem toNat_valid (c : Char) : c.toNat < 0xD800 ∨ 0xE000 ≤ c.toNat ∧ c.toNat < 0x110000 := c.valid

/-- A character is read back from its one or two UTF-16 units. -/
theorem stringText_unitEscape (c : Char) {text value rest : List Char} (h : StringText text value rest)
    (hunit : c.toNat < 0x10000) :
    StringText (Json.unitEscape c.toNat ++ text) (c :: value) rest := by
  have hvalid := toNat_valid c
  have hread := StringText.unit (unitText_hexadecimal hunit) (by omega) h
  rwa [Char.ofNat_toNat] at hread

theorem stringText_unitEscapes (c : Char) {text value rest : List Char}
    (h : StringText text value rest) (hunit : ¬ c.toNat < 0x10000) :
    StringText (Json.unitEscape (0xD800 + (c.toNat - 0x10000) / 0x400) ++
      Json.unitEscape (0xDC00 + (c.toNat - 0x10000) % 0x400) ++ text) (c :: value) rest := by
  have hvalid := toNat_valid c
  obtain ⟨high, hhigh⟩ : ∃ high, high = 0xD800 + (c.toNat - 0x10000) / 0x400 := ⟨_, rfl⟩
  obtain ⟨low, hlow⟩ : ∃ low, low = 0xDC00 + (c.toNat - 0x10000) % 0x400 := ⟨_, rfl⟩
  have hread := StringText.pair (unitText_hexadecimal (show high < 0x10000 by omega))
    (unitText_hexadecimal (show low < 0x10000 by omega)) (by omega) (by omega) h
  have hunits : 0x10000 + (high - 0xD800) * 0x400 + (low - 0xDC00) = c.toNat := by omega
  rw [hunits, Char.ofNat_toNat] at hread
  rw [← hhigh, ← hlow, List.append_assoc]
  exact hread

/-- A character is read back from the way it is written in a string. -/
theorem stringText_escapeChar (c : Char) {text value rest : List Char}
    (h : StringText text value rest) : StringText (Json.escapeChar c ++ text) (c :: value) rest := by
  have hletter {letter c : Char} (hc : (letter, c) ∈ escapes) :
      StringText (['\\', letter] ++ text) (c :: value) rest := .escape hc h
  unfold Json.escapeChar
  split_ifs with hquote hback hfeed hreturn htab hbackspace hform hplain hunit
  · exact hletter (by rw [hquote]; decide)
  · exact hletter (by rw [hback]; decide)
  · exact hletter (by rw [hfeed]; decide)
  · exact hletter (by rw [hreturn]; decide)
  · exact hletter (by rw [htab]; decide)
  · exact hletter (by rw [hbackspace]; decide)
  · exact hletter (by rw [hform]; decide)
  · exact .plain hplain.1 hquote hback h
  · exact stringText_unitEscape c h hunit
  · exact stringText_unitEscapes c h hunit

/-- A string is read back from its text. -/
theorem stringText_flatMap (value rest : List Char) :
    StringText (value.flatMap Json.escapeChar ++ '"' :: rest) value rest := by
  induction value with
  | nil => exact .close
  | cons c value ih =>
    rw [List.flatMap_cons, List.append_assoc]
    exact stringText_escapeChar c ih

theorem stringText_append (value rest : List Char) :
    Json.stringText value ++ rest = '"' :: (value.flatMap Json.escapeChar ++ '"' :: rest) := by
  rw [Json.stringText, List.cons_append, List.append_assoc, List.singleton_append]

end Strings

section Documents

mutual

/-- The document that a value in JSON is written as. -/
def Json.denoted : Json → Document
  | .null => .null
  | .integer value => .number (decide (value < 0)) value
  | .real value => .number value.negative (shownValue value)
  | .text value => .string value
  | .array items => .array (denotedItems items)
  | .object members => .object (denotedMembers members)

def Json.denotedItems : List Json → List Document
  | [] => []
  | item :: more => item.denoted :: denotedItems more

def Json.denotedMembers : List (String × Json) → List (List Char × Document)
  | [] => []
  | (name, item) :: more => (name.toList, item.denoted) :: denotedMembers more

end

theorem Json.denotedItems_eq (items : List Json) :
    denotedItems items = items.map denoted := by
  induction items with
  | nil => rfl
  | cons item more ih => rw [denotedItems, ih, List.map_cons]

/-- A layout puts only blanks between the parts of a document. -/
structure Json.Layout.Blank (layout : Json.Layout) : Prop where
  first : ∀ depth, ∀ c ∈ layout.first depth, isSpace c = true
  next : ∀ depth, ∀ c ∈ layout.next depth, isSpace c = true
  last : ∀ depth, ∀ c ∈ layout.last depth, isSpace c = true

theorem Json.blank_oneItemPerLine : Json.oneItemPerLine.Blank := by
  have hbreak (depth : Nat) : ∀ c ∈ Json.lineBreak depth, isSpace c = true := by
    intro c hc
    rcases List.mem_cons.mp hc with rfl | hc
    · decide
    · rw [List.eq_of_mem_replicate hc]
      decide
  exact ⟨hbreak, hbreak, hbreak⟩

theorem Document.Gap.refl (text : List Char) : Gap text text :=
  ⟨[], rfl, by simp⟩

/-- A member is read back with what is behind it. -/
theorem derives_member {name blanks value more text rest : List Char} {d : Document}
    {ms : List (List Char × Document)} (hb : ∀ c ∈ blanks, isSpace c = true)
    (hv : Derives (.value d) value more) (hm : Gap more text)
    (h : Derives (.moreMembers ms) text rest) :
    Derives (.members ((name, d) :: ms))
      (blanks ++ (Json.stringText name ++ ':' :: ' ' :: value)) rest := by
  have hspace : Gap (' ' :: value) value := ⟨[' '], rfl, by simp [isSpace]⟩
  rw [stringText_append]
  exact .member ⟨blanks, rfl, hb⟩ (stringText_flatMap name _) (.refl _) hspace hv hm h

/-- Each part of a document is read back from its text, whatever is behind it. -/
theorem derives_write {layout : Json.Layout} (hl : layout.Blank) :
    (∀ depth (document : Json) rest,
      Derives (.value document.denoted) (Json.write layout depth document ++ rest) rest) ∧
    (∀ depth members blanks, (∀ c ∈ blanks, isSpace c = true) → ∀ rest, ∃ text,
      Gap (Json.writeMembers layout depth members ++ (blanks ++ '\x7d' :: rest)) text ∧
        Derives (.moreMembers (Json.denotedMembers members)) text rest) ∧
    ∀ depth items blanks, (∀ c ∈ blanks, isSpace c = true) → ∀ rest, ∃ text,
      Gap (Json.writeItems layout depth items ++ (blanks ++ ']' :: rest)) text ∧
        Derives (.moreItems (Json.denotedItems items)) text rest := by
  apply Json.write.mutual_induct
  case case1 =>
    intro depth rest
    rw [Json.write]
    exact .scalar (.literal List.mem_cons_self) rfl
  case case2 =>
    intro depth value rest
    rw [Json.write]
    exact .scalar (.number (numberText_integerText value)) rfl
  case case3 =>
    intro depth value rest
    rw [Json.write]
    exact .scalar (.number (numberText_text value)) rfl
  case case4 =>
    intro depth value rest
    rw [Json.write]
    rw [stringText_append]
    exact .string (stringText_flatMap value rest)
  case case5 =>
    intro depth rest
    exact .emptyArray (.refl _)
  case case6 =>
    intro depth item more hitem hmore rest
    obtain ⟨text, hgap, hread⟩ := hmore _ (hl.last depth) rest
    simp only [Json.write, List.cons_append, List.append_assoc, List.nil_append]
    exact .array (.item ⟨_, rfl, hl.first _⟩ (hitem _) hgap hread)
  case case7 =>
    intro depth rest
    exact .emptyObject (.refl _)
  case case8 =>
    intro depth name item more hitem hmore rest
    obtain ⟨text, hgap, hread⟩ := hmore _ (hl.last depth) rest
    simp only [Json.write, List.cons_append, List.append_assoc, List.nil_append]
    exact .object (derives_member (hl.first _) (hitem _) hgap hread)
  case case9 =>
    intro depth blanks hb rest
    exact ⟨_, ⟨blanks, rfl, hb⟩, .lastItem⟩
  case case10 =>
    intro depth item more hitem hmore blanks hb rest
    obtain ⟨text, hgap, hread⟩ := hmore blanks hb rest
    refine ⟨_, .refl _, ?_⟩
    simp only [Json.writeItems, List.cons_append, List.append_assoc]
    exact .nextItem (.item ⟨_, rfl, hl.next _⟩ (hitem _) hgap hread)
  case case11 =>
    intro depth blanks hb rest
    exact ⟨_, ⟨blanks, rfl, hb⟩, .lastMember⟩
  case case12 =>
    intro depth name item more hitem hmore blanks hb rest
    obtain ⟨text, hgap, hread⟩ := hmore blanks hb rest
    refine ⟨_, .refl _, ?_⟩
    simp only [Json.writeMembers, List.cons_append, List.append_assoc, List.nil_append]
    exact .nextMember (derives_member (hl.next _) (hitem _) hgap hread)

/-- What is written with one item a line denotes the document. -/
theorem denotes_indented (document : Json) : Denotes (document.indented ++ ['\n']) document.denoted :=
  ⟨_, ['\n'], .refl _, (derives_write Json.blank_oneItemPerLine).1 0 document ['\n'],
    ['\n'], rfl, by simp [isSpace]⟩

end Documents

end Lexing
