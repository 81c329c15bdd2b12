/-!
# Blank characters

A blank is a space, tab, line break or separator of any script.  `strip` drops the blanks at both
ends of a text, and nothing else.  `unifyBreaks` is how a text file is read, whatever ends its
lines.
-/

namespace TypeSketch.Text

/-- White space and the four ASCII separators; not the zero-width characters. -/
def isBlank (c : Char) : Bool :=
  let n := c.toNat
  (0x09 ≤ n && n ≤ 0x0D) || (0x1C ≤ n && n ≤ 0x20) || n == 0x85 || n == 0xA0 || n == 0x1680 ||
    (0x2000 ≤ n && n ≤ 0x200A) || n == 0x2028 || n == 0x2029 || n == 0x202F || n == 0x205F ||
    n == 0x3000

def skipBlanks (s : List Char) : List Char :=
  s.dropWhile isBlank

def stripRight (s : List Char) : List Char :=
  (skipBlanks s.reverse).reverse

def strip (s : List Char) : List Char :=
  stripRight (skipBlanks s)

/-- Each way to end a line as a line feed. -/
def unifyBreaks : List Char → List Char
  | [] => []
  | '\r' :: '\n' :: rest => '\n' :: unifyBreaks rest
  | '\r' :: rest => '\n' :: unifyBreaks rest
  | c :: rest => c :: unifyBreaks rest

end TypeSketch.Text
