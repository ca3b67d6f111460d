/-!
# Terminal control sequences

A control sequence is ESC, an opening bracket, parameter characters, intermediate characters and one
final character. What is written to a stream that is no terminal goes without them.
-/

namespace Lexing.Text

def isParameterChar (c : Char) : Bool := 0x30 ≤ c.toNat && c.toNat ≤ 0x3F

def isIntermediateChar (c : Char) : Bool := 0x20 ≤ c.toNat && c.toNat ≤ 0x2F

def isFinalChar (c : Char) : Bool := 0x40 ≤ c.toNat && c.toNat ≤ 0x7E

/-- The text after the control sequence that follows an ESC, if there is one. -/
def afterControlSequence? : List Char → Option (List Char)
  | '[' :: text =>
    match (text.dropWhile isParameterChar).dropWhile isIntermediateChar with
    | final :: rest => if isFinalChar final then some rest else none
    | [] => none
  | _ => none

private theorem length_dropWhile_le (p : Char → Bool) (text : List Char) :
    (text.dropWhile p).length ≤ text.length :=
  (List.dropWhile_suffix p).length_le

theorem length_afterControlSequence? {text rest : List Char}
    (h : afterControlSequence? text = some rest) : rest.length < text.length := by
  unfold afterControlSequence? at h
  split at h
  · rename_i tail
    have outer := length_dropWhile_le isIntermediateChar (tail.dropWhile isParameterChar)
    have inner := length_dropWhile_le isParameterChar tail
    split at h
    · rename_i final after heq
      rw [heq] at outer
      split at h
      · cases h
        simp only [List.length_cons] at outer ⊢
        omega
      · cases h
    · cases h
  · cases h

/-- Removes every control sequence, from left to right. An ESC that begins none is kept. -/
def withoutControlSequences (text : List Char) : List Char :=
  match _h : text.dropWhile (· != '\x1b') with
  | [] => text
  | escape :: rest =>
    text.takeWhile (· != '\x1b') ++
      match _h' : afterControlSequence? rest with
      | some after => withoutControlSequences after
      | none => escape :: withoutControlSequences rest
termination_by text.length
decreasing_by
  all_goals
    have shorter := length_dropWhile_le (· != '\x1b') text
    rw [_h, List.length_cons] at shorter
  · have := length_afterControlSequence? _h'
    omega
  · omega

end Lexing.Text
