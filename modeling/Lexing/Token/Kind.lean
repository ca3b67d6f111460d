/-!
# Kinds of tokens

Every token is of one kind. Five classes gather kinds for those who read a token list; a kind may be
in two classes (a comparison is an operator) or in none.
-/

namespace Lexing

inductive TokenKind
  | keywordLet
  | keywordIf
  | assign
  | plus
  | minus
  | times
  | divide
  | power
  | equals
  | notEquals
  | less
  | lessEquals
  | greater
  | greaterEquals
  | logicalOr
  | logicalAnd
  | logicalNot
  | parenOpen
  | parenClose
  | curlyOpen
  | curlyClose
  | paramIndicator
  | leftArrow
  | typeSignature
  | identifier
  | intLiteral
  | floatLiteral
  | stringLiteral
  | endOfLine
  | endOfInput
  deriving DecidableEq, Repr, Inhabited

namespace TokenKind

/-- All kinds, in their official order. -/
def all : List TokenKind :=
  [.keywordLet, .keywordIf, .assign, .plus, .minus, .times, .divide, .power,
    .equals, .notEquals, .less, .lessEquals, .greater, .greaterEquals,
    .logicalOr, .logicalAnd, .logicalNot,
    .parenOpen, .parenClose, .curlyOpen, .curlyClose, .paramIndicator, .leftArrow, .typeSignature,
    .identifier, .intLiteral, .floatLiteral, .stringLiteral, .endOfLine, .endOfInput]

/-- Place in the official order, from one. -/
def ordinal (kind : TokenKind) : Nat :=
  all.idxOf kind + 1

def name : TokenKind → String
  | .keywordLet => "LET"
  | .keywordIf => "IF"
  | .assign => "ASSIGN"
  | .plus => "PLUS"
  | .minus => "MINUS"
  | .times => "MULT"
  | .divide => "DIV"
  | .power => "EXP"
  | .equals => "EQUALS"
  | .notEquals => "NOT_EQUALS"
  | .less => "LESS"
  | .lessEquals => "LESS_EQ"
  | .greater => "GREATER"
  | .greaterEquals => "GREATER_EQ"
  | .logicalOr => "OR"
  | .logicalAnd => "AND"
  | .logicalNot => "NOT"
  | .parenOpen => "PAREN_OPEN"
  | .parenClose => "PAREN_CLOSE"
  | .curlyOpen => "CURLY_OPEN"
  | .curlyClose => "CURLY_CLOSE"
  | .paramIndicator => "PARAM_INDICATOR"
  | .leftArrow => "LEFT_ARROW"
  | .typeSignature => "TYPE_SIG"
  | .identifier => "IDENTIFIER"
  | .intLiteral => "INT_LITERAL"
  | .floatLiteral => "FLOAT_LITERAL"
  | .stringLiteral => "STRING_LITERAL"
  | .endOfLine => "EOL"
  | .endOfInput => "EOF"

def ofName? (name : String) : Option TokenKind :=
  all.find? fun kind => kind.name == name

def isKeyword : TokenKind → Bool
  | .keywordLet | .keywordIf => true
  | _ => false

def isComparison : TokenKind → Bool
  | .equals | .notEquals | .less | .lessEquals | .greater | .greaterEquals => true
  | _ => false

def isOperator : TokenKind → Bool
  | .assign | .plus | .minus | .times | .divide | .power
  | .logicalOr | .logicalAnd | .logicalNot => true
  | kind => kind.isComparison

def isLiteral : TokenKind → Bool
  | .intLiteral | .floatLiteral | .stringLiteral => true
  | _ => false

def isPunctuation : TokenKind → Bool
  | .parenOpen | .parenClose | .curlyOpen | .curlyClose
  | .paramIndicator | .leftArrow | .typeSignature => true
  | _ => false

end TokenKind

end Lexing
