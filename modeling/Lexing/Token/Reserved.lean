import Lexing.Token.Kind

/-!
# Reserved spellings

The spellings with a kind of their own, in increasing order. The type mark `@` is not among them:
it is recognised as punctuation only.
-/

namespace Lexing

def reservedSpellings : List (List Char × TokenKind) :=
  [(['!'], .logicalNot),
    (['!', '='], .notEquals),
    (['&', '&'], .logicalAnd),
    (['('], .parenOpen),
    ([')'], .parenClose),
    (['*'], .times),
    (['+'], .plus),
    (['-'], .minus),
    (['-', '>'], .leftArrow),
    (['/'], .divide),
    ([':', ':'], .paramIndicator),
    (['<'], .less),
    (['<', '='], .lessEquals),
    (['='], .assign),
    (['=', '='], .equals),
    (['>'], .greater),
    (['>', '='], .greaterEquals),
    (['^'], .power),
    (['i', 'f'], .keywordIf),
    (['l', 'e', 't'], .keywordLet),
    (['\x7b'], .curlyOpen),
    (['|', '|'], .logicalOr),
    (['\x7d'], .curlyClose)]

def reservedKind? (spelling : List Char) : Option TokenKind :=
  reservedSpellings.lookup spelling

end Lexing
