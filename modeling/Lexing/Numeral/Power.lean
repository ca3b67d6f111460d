/-!
# Powers of two and of ten

The scales of binary and of decimal notation, as natural numbers.
-/

namespace Lexing.Numeral

def twoPow (n : Nat) : Nat := Nat.pow 2 n

def tenPow (n : Nat) : Nat := Nat.pow 10 n

end Lexing.Numeral
