import TypeSketch.Json.Basic

/-!
# Tokens of JSON text

The tokens, and what can be wrong with a text of them.  Places in a text are given by the
text from there on.
-/

namespace TypeSketch.Json

inductive Token
  | openArray
  | closeArray
  | openObject
  | closeObject
  | comma
  | colon
  | null
  | scalar (literal : Literal)
deriving DecidableEq

/-- What can be wrong with a JSON text. -/
inductive SyntaxFault
  | expectingValue
  | expectingName
  | expectingColon
  | expectingComma
  | extraData
  | unterminatedString
  | controlCharacter
  | invalidEscape
  | invalidCodeEscape
  | byteOrderMark
deriving DecidableEq

def SyntaxFault.message : SyntaxFault → String
  | .expectingValue => "Expecting value"
  | .expectingName => "Expecting property name enclosed in double quotes"
  | .expectingColon => "Expecting ':' delimiter"
  | .expectingComma => "Expecting ',' delimiter"
  | .extraData => "Extra data"
  | .unterminatedString => "Unterminated string starting at"
  | .controlCharacter => "Invalid control character at"
  | .invalidEscape => "Invalid \\escape"
  | .invalidCodeEscape => "Invalid \\uXXXX escape"
  | .byteOrderMark => "Unexpected UTF-8 BOM (decode using utf-8-sig)"

/-- A fault and the text from its place on. -/
structure Fault where
  cause : SyntaxFault
  place : List Char
deriving DecidableEq

/-- What the text holds at one place: a token, a string with a fault in it, or neither. -/
inductive Symbol
  | token (token : Token)
  | brokenString (fault : Fault)
  | other
deriving DecidableEq

end TypeSketch.Json
