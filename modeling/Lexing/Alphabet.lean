/-!
# The alphabet

The classes of characters that decide how a lexeme begins and how far it goes. Words, numbers and
operators are spelled in ASCII.
-/

namespace Lexing

/-- Letters and the underscore begin a word. -/
def isWordStart (c : Char) : Bool :=
  c.isAlpha || c == '_'

def isWordChar (c : Char) : Bool :=
  c.isAlphanum || c == '_'

def isDigit (c : Char) : Bool :=
  c.isDigit

def isOperatorChar (c : Char) : Bool :=
  ['=', '+', '-', '*', '/', '^', '<', '>', '!', '|', '&'].contains c

/-- Spaces and tabs separate lexemes and are otherwise ignored. -/
def isBlank (c : Char) : Bool :=
  c == ' ' || c == '\t'

/-- Characters that end a line, alone or as a pair. -/
def isLineTerminator (c : Char) : Bool :=
  c == '\n' || c == '\r'

end Lexing
