import Lexing.Text.Printable

/-!
# Quoted text

A text is quoted with apostrophes, or with double quotes if it holds an apostrophe and no double
quote. The delimiter and the backslash are escaped by a backslash; line feed, carriage return and
tab have letters; every other character without a printed form is written by its code point in two,
four or eight hexadecimal digits.
-/

namespace Lexing.Text

/-- A number in lower-case hexadecimal, filled up with zeros to `width`. -/
def hexadecimal (width n : Nat) : List Char :=
  (Nat.toDigits 16 n).leftpad width '0'

/-- Code point escape of the shortest sufficient width. -/
def codePointEscape (c : Char) : List Char :=
  if c.toNat < 0x100 then '\\' :: 'x' :: hexadecimal 2 c.toNat
  else if c.toNat < 0x10000 then '\\' :: 'u' :: hexadecimal 4 c.toNat
  else '\\' :: 'U' :: hexadecimal 8 c.toNat

def quoteChar (delimiter c : Char) : List Char :=
  if c = delimiter ∨ c = '\\' then ['\\', c]
  else if c = '\n' then ['\\', 'n']
  else if c = '\r' then ['\\', 'r']
  else if c = '\t' then ['\\', 't']
  else if isPrintable c then [c]
  else codePointEscape c

/-- The delimiter that needs the fewer escapes in this text. -/
def quoteDelimiter (text : List Char) : Char :=
  if text.contains '\x27' && !text.contains '"' then '"' else '\x27'

def quote (text : List Char) : List Char :=
  let delimiter := quoteDelimiter text
  delimiter :: (text.flatMap (quoteChar delimiter) ++ [delimiter])

end Lexing.Text
