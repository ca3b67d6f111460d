import Lexing.Scan.Fault
import Lexing.Token.Reserved

/-!
# Scans

A scan looks at the text ahead, takes the characters of one lexeme and leaves the rest. It also says
what it took when it fails: what is taken and what is left always make up the text.
-/

namespace Lexing

structure Scan (α : Type) where
  taken : List Char
  rest : List Char
  outcome : Except Fault α

namespace Scan

/-- What a scan took and left makes up the text. -/
def Covers {α : Type} (scan : Scan α) (text : List Char) : Prop :=
  scan.taken ++ scan.rest = text

def map {α β : Type} (f : α → β) (scan : Scan α) : Scan β :=
  ⟨scan.taken, scan.rest, scan.outcome.map f⟩

/-- A lexeme of a given kind without a number. -/
def plain (kind : TokenKind) (taken rest : List Char) : Scan Lexeme :=
  ⟨taken, rest, .ok { kind, text := taken }⟩

/-- A failure that takes nothing. -/
def refuse (fault : Fault) (text : List Char) : Scan Lexeme :=
  ⟨[], text, .error fault⟩

@[simp] theorem covers_map {α β : Type} (f : α → β) (scan : Scan α) (text : List Char) :
    (scan.map f).Covers text ↔ scan.Covers text := Iff.rfl

@[simp] theorem covers_plain (kind : TokenKind) (taken rest text : List Char) :
    (plain kind taken rest).Covers text ↔ taken ++ rest = text := Iff.rfl

@[simp] theorem covers_refuse (fault : Fault) (text : List Char) :
    (refuse fault text).Covers text := rfl

theorem map_eq_ok {α β : Type} {f : α → β} {scan : Scan α} {b : β}
    (h : (scan.map f).outcome = .ok b) : ∃ a, scan.outcome = .ok a ∧ f a = b := by
  cases outcome : scan.outcome with
  | error fault => simp [map, outcome, Except.map] at h
  | ok a => exact ⟨a, rfl, by simpa [map, outcome, Except.map] using h⟩

theorem Covers.length_rest {α : Type} {scan : Scan α} {text : List Char} (h : scan.Covers text)
    (taken : scan.taken ≠ []) : scan.rest.length < text.length := by
  have positive := List.length_pos_iff.mpr taken
  rw [← h, List.length_append]
  omega

end Scan

end Lexing
