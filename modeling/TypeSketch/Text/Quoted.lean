import TypeSketch.Text.Printable

/-!
# Quoted text

Three ways to put quotes around a text.  `shown` is for messages: it picks the quote that needs no
escape and spells out what cannot be printed.  `jsonString` is a JSON string that keeps every
character JSON can hold as it is.  `enclosed` is a string of the emitted declarations, where a
backslash stands before each backslash and each quote, and nowhere else.
-/

namespace TypeSketch.Text

/-- The hexadecimal digits of `n`, in lower case, filled with zeros to `width`. -/
def hexText (width n : Nat) : List Char :=
  let digits := Nat.toDigits 16 n
  List.replicate (width - digits.length) '0' ++ digits

/-- A character by its number, in the shortest of the forms `\x`, `\u` and `\U`. -/
def numbered (c : Char) : List Char :=
  let n := c.toNat
  if n < 0x100 then '\\' :: 'x' :: hexText 2 n
  else if n < 0x10000 then '\\' :: 'u' :: hexText 4 n
  else '\\' :: 'U' :: hexText 8 n

def shownChar (quote c : Char) : List Char :=
  if c = quote ∨ c = '\\' then ['\\', c]
  else if c = '\n' then ['\\', 'n']
  else if c = '\r' then ['\\', 'r']
  else if c = '\t' then ['\\', 't']
  else if isPrintable c then [c]
  else numbered c

/-- Single quotes, unless the text has some and has no double quotes. -/
def shownQuote (s : List Char) : Char :=
  if s.contains '\'' && !s.contains '"' then '"' else '\''

/-- The text in quotes, as messages show it. -/
def shown (s : List Char) : List Char :=
  let quote := shownQuote s
  quote :: (s.flatMap (shownChar quote) ++ [quote])

def jsonChar (c : Char) : List Char :=
  if c = '"' ∨ c = '\\' then ['\\', c]
  else if c = '\n' then ['\\', 'n']
  else if c = '\r' then ['\\', 'r']
  else if c = '\t' then ['\\', 't']
  else if c = '\x08' then ['\\', 'b']
  else if c = '\x0c' then ['\\', 'f']
  else if c.toNat < 0x20 then '\\' :: 'u' :: hexText 4 c.toNat
  else [c]

/-- The text as a JSON string. -/
def jsonString (s : List Char) : List Char :=
  '"' :: (s.flatMap jsonChar ++ ['"'])

def enclosedChar (quote c : Char) : List Char :=
  if c = quote ∨ c = '\\' then ['\\', c] else [c]

/-- The text between two quotes of the emitted declarations. -/
def enclosed (quote : Char) (s : List Char) : List Char :=
  quote :: (s.flatMap (enclosedChar quote) ++ [quote])

end TypeSketch.Text
