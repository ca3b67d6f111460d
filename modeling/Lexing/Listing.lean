import Lexing.Json
import Lexing.Token.Basic

/-!
# Listings

A token list is shown as text, one token a line with its place, kind and value in columns, or as
JSON, one object a token.
-/

namespace Lexing

/-- The tokens of one file under the name that it is shown by. -/
structure Listing where
  file : String
  tokens : List Token

inductive ListingFormat
  | text
  | json
  deriving DecidableEq, Repr

namespace Listing

/-- The place in eight columns, the kind in sixteen, and the value; the end of input has none. -/
def line (token : Token) : List Char :=
  let place := (placeText token.line token.column).rightpad 8 ' '
  let name := token.kind.name.toList
  match token.kind with
  | .endOfInput => place ++ name
  | _ => place ++ name.rightpad 16 ' ' ++ token.value.shown

/-- A value in JSON; a missing number is null. -/
def valueEntry : Value → Json
  | .integer value => value.elim .null .integer
  | .real value => value.elim .null .real
  | .text value => .text value

/-- A token in JSON. Only number literals have a value beside their text. -/
def entry (token : Token) : Json :=
  let common := [("kind", .text token.kind.name.toList), ("lexeme", .text token.text),
    ("line", .integer token.line), ("column", .integer token.column)]
  match token.kind with
  | .intLiteral | .floatLiteral => .object (common ++ [("value", valueEntry token.value)])
  | _ => .object common

/-- The line above the tokens of one of several files. -/
def heading (listing : Listing) : List Char :=
  "==> ".toList ++ listing.file.toList ++ " <==".toList

def lines (headed : Bool) (listing : Listing) : List (List Char) :=
  (if headed then [listing.heading] else []) ++ listing.tokens.map line

def document (listings : List Listing) : Json :=
  .array (listings.map fun listing =>
    .object [("file", .text listing.file.toList), ("tokens", .array (listing.tokens.map entry))])

/-- The messages that show several listings. -/
def messages (format : ListingFormat) (headed : Bool) (listings : List Listing) :
    List (List Char) :=
  match format with
  | .text => listings.flatMap (lines headed)
  | .json => [(document listings).indented]

end Listing

end Lexing
