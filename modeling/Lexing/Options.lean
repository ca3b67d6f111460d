import Lexing.Numeral.Power

/-!
# Options

What can be set about a scan: the name shown in diagnostics, the rule for a carriage return without
a line feed, and the width of the signed range that integer literals have to fit in.
-/

namespace Lexing

/-- The least and the greatest width of integers. -/
def minIntBits : Nat := 8

def maxIntBits : Nat := 1024

structure Options where
  filename : String := "<input>"
  loneCr : Bool := true
  intBits : Nat := 64
  intBits_mem : minIntBits ≤ intBits ∧ intBits ≤ maxIntBits := by decide
  deriving DecidableEq

inductive ConfigError
  | intBitsOutOfRange (given : Int)
  | invalidLoneCr (given : String)
  | invalidIntBits (given : String)
  deriving DecidableEq, Repr

namespace Options

def named (filename : String) : Options :=
  { filename }

/-- Sets the width of integers, if it is in range. -/
def withIntBits (options : Options) (bits : Int) : Except ConfigError Options :=
  if h : minIntBits ≤ bits.toNat ∧ bits.toNat ≤ maxIntBits then
    .ok { options with intBits := bits.toNat, intBits_mem := h }
  else .error (.intBitsOutOfRange bits)

def intMin (options : Options) : Int :=
  -(Numeral.twoPow (options.intBits - 1) : Int)

def intMax (options : Options) : Int :=
  (Numeral.twoPow (options.intBits - 1) : Int) - 1

end Options

end Lexing
