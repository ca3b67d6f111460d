import Lexing.Proofs.PlaceValue

/-!
# The grammar of JSON

What a JSON text denotes: names, numbers as rational numbers, strings with their escapes, arrays and
objects, with blanks between the parts.
-/

namespace Lexing

/-- What a JSON text denotes. A number keeps its sign also where it is zero. -/
inductive Document
  | null
  | boolean (value : Bool)
  | number (negative : Bool) (value : ℚ)
  | string (value : List Char)
  | array (items : List Document)
  | object (members : List (List Char × Document))

namespace Document

section Grammar

def isSpace (c : Char) : Bool :=
  c == ' ' || c == '\t' || c == '\n' || c == '\r'

/-- There are only blanks between a text and the rest of it. -/
def Gap (text rest : List Char) : Prop :=
  ∃ blanks, text = blanks ++ rest ∧ ∀ c ∈ blanks, isSpace c = true

/-- The names of values. -/
def literals : List (List Char × Document) :=
  [(['n', 'u', 'l', 'l'], .null), (['t', 'r', 'u', 'e'], .boolean true),
    (['f', 'a', 'l', 's', 'e'], .boolean false)]

/-- The digits behind a point, if there is one. -/
inductive Fraction : List Char → List Char → Prop
  | none : Fraction [] []
  | some {digits : List Char} (hd : Digits digits) : Fraction ('.' :: digits) digits

/-- The power of ten behind a letter E, if there is one. -/
inductive Exponent : List Char → Int → Prop
  | none : Exponent [] 0
  | some {e : Char} {mark digits : List Char} (he : e = 'e' ∨ e = 'E')
      (hm : mark = [] ∨ mark = ['+'] ∨ mark = ['-']) (hd : Digits digits) :
      Exponent (e :: (mark ++ digits)) (if mark = ['-'] then -placeValue digits else placeValue digits)

/-- A number as it is written: only zero itself begins with a zero. -/
inductive NumberText : List Char → Bool → ℚ → Prop
  | decimal {sign whole point fraction power : List Char} {exponent : Int} (hs : Sign sign)
      (hw : Digits whole) (hz : whole.head? = some '0' → whole = ['0']) (hf : Fraction point fraction)
      (he : Exponent power exponent) :
      NumberText (sign ++ (whole ++ (point ++ power))) (sign != [])
        ((if sign = [] then 1 else -1) *
          (placeValue whole + placeValue fraction / 10 ^ fraction.length) * 10 ^ exponent)

/-- A value that is written without marks around it: a name or a number. -/
inductive Scalar : List Char → Document → Prop
  | literal {spelling : List Char} {d : Document} (h : (spelling, d) ∈ literals) : Scalar spelling d
  | number {text : List Char} {negative : Bool} {q : ℚ} (h : NumberText text negative q) :
      Scalar text (.number negative q)

/-- The letters that stand for characters behind a backslash. -/
def escapes : List (Char × Char) :=
  [('"', '"'), ('\\', '\\'), ('/', '/'), ('b', '\x08'), ('f', '\x0c'), ('n', '\n'), ('r', '\r'),
    ('t', '\t')]

def HexDigit (c : Char) : Prop :=
  Digit c ∨ ('A' ≤ c ∧ c ≤ 'F') ∨ ('a' ≤ c ∧ c ≤ 'f')

def hexValue (c : Char) : Nat :=
  if c ≤ '9' then c.toNat - '0'.toNat
  else if c ≤ 'F' then c.toNat - 'A'.toNat + 10
  else c.toNat - 'a'.toNat + 10

/-- Four hexadecimal digits and the UTF-16 unit that they denote. -/
structure UnitText (digits : List Char) (unit : Nat) : Prop where
  four : digits.length = 4
  hex : ∀ d ∈ digits, HexDigit d
  value : digits.foldl (fun n d => n * 16 + hexValue d) 0 = unit

/-- The characters of a string up to the closing quote, and what is behind it. -/
inductive StringText : List Char → List Char → List Char → Prop
  | close {rest : List Char} : StringText ('"' :: rest) [] rest
  | plain {c : Char} {text value rest : List Char} (hc : 0x20 ≤ c.toNat) (hq : c ≠ '"') (hb : c ≠ '\\')
      (h : StringText text value rest) : StringText (c :: text) (c :: value) rest
  | escape {letter c : Char} {text value rest : List Char} (hc : (letter, c) ∈ escapes)
      (h : StringText text value rest) : StringText ('\\' :: letter :: text) (c :: value) rest
  | unit {digits text value rest : List Char} {unit : Nat} (hu : UnitText digits unit)
      (hc : unit < 0xD800 ∨ 0xE000 ≤ unit) (h : StringText text value rest) :
      StringText ('\\' :: 'u' :: (digits ++ text)) (Char.ofNat unit :: value) rest
  | pair {digits digits' text value rest : List Char} {high low : Nat} (hu : UnitText digits high)
      (hu' : UnitText digits' low) (hh : 0xD800 ≤ high ∧ high < 0xDC00)
      (hl : 0xDC00 ≤ low ∧ low < 0xE000) (h : StringText text value rest) :
      StringText ('\\' :: 'u' :: (digits ++ '\\' :: 'u' :: (digits' ++ text)))
        (Char.ofNat (0x10000 + (high - 0xD800) * 0x400 + (low - 0xDC00)) :: value) rest

/-- The parts of a document: values, and the items or members from one of them or from the mark behind
one of them on. -/
inductive Part
  | value (d : Document)
  | items (ds : List Document)
  | moreItems (ds : List Document)
  | members (ms : List (List Char × Document))
  | moreMembers (ms : List (List Char × Document))

/-- A part of a document at the beginning of a text, and what is behind it. -/
inductive Derives : Part → List Char → List Char → Prop
  | scalar {spelling text rest : List Char} {d : Document} (h : Scalar spelling d)
      (ht : text = spelling ++ rest) : Derives (.value d) text rest
  | string {text value rest : List Char} (h : StringText text value rest) :
      Derives (.value (.string value)) ('"' :: text) rest
  | emptyArray {text rest : List Char} (h : Gap text (']' :: rest)) :
      Derives (.value (.array [])) ('[' :: text) rest
  | array {text rest : List Char} {ds : List Document} (h : Derives (.items ds) text rest) :
      Derives (.value (.array ds)) ('[' :: text) rest
  | item {text a b c rest : List Char} {d : Document} {ds : List Document} (ha : Gap text a)
      (hd : Derives (.value d) a b) (hc : Gap b c) (h : Derives (.moreItems ds) c rest) :
      Derives (.items (d :: ds)) text rest
  | lastItem {rest : List Char} : Derives (.moreItems []) (']' :: rest) rest
  | nextItem {text rest : List Char} {ds : List Document} (h : Derives (.items ds) text rest) :
      Derives (.moreItems ds) (',' :: text) rest
  | emptyObject {text rest : List Char} (h : Gap text ('\x7d' :: rest)) :
      Derives (.value (.object [])) ('\x7b' :: text) rest
  | object {text rest : List Char} {ms : List (List Char × Document)}
      (h : Derives (.members ms) text rest) : Derives (.value (.object ms)) ('\x7b' :: text) rest
  | member {text a b c d e f rest name : List Char} {v : Document} {ms : List (List Char × Document)}
      (ha : Gap text ('"' :: a)) (hn : StringText a name b) (hc : Gap b (':' :: c)) (hd : Gap c d)
      (hv : Derives (.value v) d e) (hf : Gap e f) (h : Derives (.moreMembers ms) f rest) :
      Derives (.members ((name, v) :: ms)) text rest
  | lastMember {rest : List Char} : Derives (.moreMembers []) ('\x7d' :: rest) rest
  | nextMember {text rest : List Char} {ms : List (List Char × Document)}
      (h : Derives (.members ms) text rest) : Derives (.moreMembers ms) (',' :: text) rest

/-- A text denotes a document: there are only blanks before and behind it. -/
def Denotes (text : List Char) (d : Document) : Prop :=
  ∃ a b, Gap text a ∧ Derives (.value d) a b ∧ Gap b []

end Grammar

end Document

end Lexing
