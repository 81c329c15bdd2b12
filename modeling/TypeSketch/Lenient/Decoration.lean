import TypeSketch.Text.Blank

/-!
# Comments and trailing commas

What may be added to JSON text without changing what it says.  Both are told from the contents of
strings, which may stand in single or double quotes and are left as they are.
-/

namespace TypeSketch.Lenient

/-- Where a character stands: outside strings, in one, or behind a backslash in one. -/
inductive Place
  | code
  | quoted (quote : Char)
  | escaped (quote : Char)
deriving DecidableEq

def isQuote (c : Char) : Bool := c = '"' || c = '\''

/-- The place of the next character. -/
def Place.next (c : Char) : Place → Place
  | .code => if isQuote c then .quoted c else .code
  | .quoted q => if c = '\\' then .escaped q else if c = q then .code else .quoted q
  | .escaped q => .quoted q

/-- A place, or the inside of a comment. -/
inductive Region
  | text (place : Place)
  | lineComment
  | blockComment
deriving DecidableEq

/-- The text without its comments.  A line comment ends in front of the line break, and a comment
that is not closed takes the rest. -/
def dropComments : Region → List Char → List Char
  | _, [] => []
  | .text .code, '/' :: '/' :: rest => dropComments .lineComment rest
  | .text .code, '/' :: '*' :: rest => dropComments .blockComment rest
  | .text place, c :: rest => c :: dropComments (.text (place.next c)) rest
  | .lineComment, c :: rest =>
      if c = '\n' ∨ c = '\r' then c :: dropComments (.text .code) rest
      else dropComments .lineComment rest
  | .blockComment, '*' :: '/' :: rest => dropComments (.text .code) rest
  | .blockComment, _ :: rest => dropComments .blockComment rest

/-- Whether the text, blanks apart, is at its end or at a closing bracket. -/
def closes (s : List Char) : Bool :=
  match Text.skipBlanks s with
  | [] => true
  | c :: _ => c = '}' || c = ']'

/-- The text without the commas that nothing but a closing bracket follows. -/
def dropTrailingCommas : Place → List Char → List Char
  | _, [] => []
  | place, c :: rest =>
      if place = .code ∧ c = ',' ∧ closes rest then dropTrailingCommas .code rest
      else c :: dropTrailingCommas (place.next c) rest

/-- The text without comments, trailing commas and surrounding blanks. -/
def clean (s : List Char) : List Char :=
  Text.strip (dropTrailingCommas .code (dropComments (.text .code) s))

end TypeSketch.Lenient
