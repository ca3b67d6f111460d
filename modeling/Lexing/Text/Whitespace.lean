/-!
# White space

Two sets of blank characters. The wide one is what may surround a word; the narrow one, which leaves
out the four information separators U+001C to U+001F, is what may surround a numeral.
-/

namespace Lexing.Text

/-- The separators U+001C to U+001F. -/
def isInformationSeparator (c : Char) : Bool :=
  0x1C ≤ c.toNat && c.toNat ≤ 0x1F

/-- Blank characters other than the information separators. -/
def isNumeralBlank (c : Char) : Bool :=
  let n := c.toNat
  (0x09 ≤ n && n ≤ 0x0D) || n == 0x20 || n == 0x85 || n == 0xA0 || n == 0x1680 ||
    (0x2000 ≤ n && n ≤ 0x200A) || n == 0x2028 || n == 0x2029 || n == 0x202F || n == 0x205F ||
    n == 0x3000

def isWhitespace (c : Char) : Bool :=
  isNumeralBlank c || isInformationSeparator c

/-- Drops the characters of a class from both ends of a text. -/
def trim (drop : Char → Bool) (text : List Char) : List Char :=
  ((text.dropWhile drop).reverse.dropWhile drop).reverse

end Lexing.Text
