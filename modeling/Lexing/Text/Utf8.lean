/-!
# Reading UTF-8

A byte sequence is decoded from the left. The first sequence that is not well formed is reported
with the longest part of it that could still begin a character, at least one byte.
-/

namespace Lexing.Text.Utf8

inductive Reason
  | invalidStart
  | invalidContinuation
  | unexpectedEnd
  deriving DecidableEq, Repr

/-- Where decoding stopped: the offset, the first bad byte, the count of bad bytes and the reason. -/
structure Fault where
  start : Nat
  byte : UInt8
  count : Nat
  reason : Reason
  deriving DecidableEq, Repr

def Reason.message : Reason → String
  | .invalidStart => "invalid start byte"
  | .invalidContinuation => "invalid continuation byte"
  | .unexpectedEnd => "unexpected end of data"

def byteText (b : UInt8) : String :=
  String.ofList ((Nat.toDigits 16 b.toNat).leftpad 2 '0')

def Fault.message (fault : Fault) : String :=
  let reason := fault.reason.message
  let last := fault.start + fault.count - 1
  if fault.count = 1 then
    "'utf-8' codec can't decode byte 0x" ++ byteText fault.byte ++
      s!" in position {fault.start}: {reason}"
  else s!"'utf-8' codec can't decode bytes in position {fault.start}-{last}: {reason}"

/--
The ranges that the bytes after a first byte have to meet, in order. Some bytes start no character.
-/
def followers? (first : UInt8) : Option (List (UInt8 × UInt8)) :=
  if first < 0x80 then some []
  else if first < 0xC2 then none
  else if first < 0xE0 then some [(0x80, 0xBF)]
  else if first = 0xE0 then some [(0xA0, 0xBF), (0x80, 0xBF)]
  else if first = 0xED then some [(0x80, 0x9F), (0x80, 0xBF)]
  else if first < 0xF0 then some [(0x80, 0xBF), (0x80, 0xBF)]
  else if first = 0xF0 then some [(0x90, 0xBF), (0x80, 0xBF), (0x80, 0xBF)]
  else if first < 0xF4 then some [(0x80, 0xBF), (0x80, 0xBF), (0x80, 0xBF)]
  else if first = 0xF4 then some [(0x80, 0x8F), (0x80, 0xBF), (0x80, 0xBF)]
  else none

/-- How many bytes meet their ranges, and why the next one does not, if so. -/
def checkFollowers : List (UInt8 × UInt8) → List UInt8 → Nat × Option Reason
  | [], _ => (0, none)
  | _ :: _, [] => (0, some .unexpectedEnd)
  | (low, high) :: ranges, b :: bytes =>
    if low ≤ b ∧ b ≤ high then
      let (met, reason) := checkFollowers ranges bytes
      (met + 1, reason)
    else (0, some .invalidContinuation)

/-- Payload bits of a first byte with the given number of followers. -/
def leadBits (first : UInt8) (count : Nat) : Nat :=
  match count with
  | 0 => first.toNat
  | 1 => first.toNat % 0x20
  | 2 => first.toNat % 0x10
  | _ => first.toNat % 0x08

def codePoint (first : UInt8) (others : List UInt8) : Nat :=
  others.foldl (fun n b => n * 0x40 + b.toNat % 0x40) (leadBits first others.length)

/-- Decodes the bytes from offset `start` on. -/
def decodeFrom (start : Nat) : List UInt8 → Except Fault (List Char)
  | [] => .ok []
  | first :: bytes =>
    match followers? first with
    | none => .error ⟨start, first, 1, .invalidStart⟩
    | some ranges =>
      match checkFollowers ranges bytes with
      | (met, some reason) => .error ⟨start, first, met + 1, reason⟩
      | (met, none) =>
        (decodeFrom (start + met + 1) (bytes.drop met)).map
          (Char.ofNat (codePoint first (bytes.take met)) :: ·)
termination_by bytes => bytes.length
decreasing_by simp only [List.length_drop, List.length_cons]; omega

def decode (bytes : List UInt8) : Except Fault (List Char) :=
  decodeFrom 0 bytes

end Lexing.Text.Utf8
