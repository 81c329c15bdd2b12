import TypeSketch.Name.Identifier
import TypeSketch.Lenient.Decoration

/-!
# Selections

Text copied out of a program or a console often has something around the value: a console's
`Object` or `Array`, an assignment, `as const`, a semicolon, parentheses.  `select` takes these
away, and makes an object of a single member.
-/

namespace TypeSketch.Lenient

/-- The text behind `export` and the blanks that follow it. -/
def dropExport (s : List Char) : List Char :=
  let word := ['e', 'x', 'p', 'o', 'r', 't']
  if word.isPrefixOf s then
    match s.drop word.length with
    | c :: rest => if Text.isBlank c then Text.skipBlanks rest else s
    | [] => s
  else s

/-- The text behind the first equals sign. -/
def dropAssignment (s : List Char) : List Char :=
  match s.dropWhile (· ≠ '=') with
  | _ :: rest => rest
  | [] => s

/-- Whether a character is the given small letter in either case; the long s is an s. -/
def isLetter (small c : Char) : Bool :=
  c.toLower = small || (small = 's' && c = 'ſ')

/-- The text behind the given letters, in either case. -/
def dropLetters : List Char → List Char → Option (List Char)
  | [], s => some s
  | l :: ls, c :: rest => if isLetter l c then dropLetters ls rest else none
  | _ :: _, [] => none

/-- The text behind at least one blank and all that follow it. -/
def dropSomeBlanks : List Char → Option (List Char)
  | c :: rest => if Text.isBlank c then some (Text.skipBlanks rest) else none
  | [] => none

/-- The text in front of `as const` at its end, where a semicolon may follow. -/
def dropAsConst (s : List Char) : List Char :=
  let backwards := match s.reverse with
    | ';' :: rest => Text.skipBlanks rest
    | rest => Text.skipBlanks rest
  let before := do
    let rest ← dropLetters ['t', 's', 'n', 'o', 'c'] backwards
    let rest ← dropSomeBlanks rest
    let rest ← dropLetters ['s', 'a'] rest
    dropSomeBlanks rest
  match before with
  | some rest => rest.reverse
  | none => s

/-- What stays behind a semicolon that ends its line: the text from the last line break on of the
blanks behind it, or nothing if there are only blanks. -/
def afterSemicolon (s : List Char) : Option (List Char) :=
  let blanks := s.takeWhile Text.isBlank
  match s.dropWhile Text.isBlank with
  | [] => some []
  | rest =>
      if blanks.contains '\n' then
        some ('\n' :: ((blanks.reverse.takeWhile (· ≠ '\n')).reverse ++ rest))
      else none

/-- The text without the first semicolon that ends a line, and without the blanks behind it. -/
def dropSemicolon : List Char → List Char
  | [] => []
  | c :: rest =>
      if c = ';' then
        match afterSemicolon rest with
        | some after => after
        | none => c :: dropSemicolon rest
      else c :: dropSemicolon rest

/-- The text between parentheses. -/
def dropParentheses (s : List Char) : List Char :=
  if s.head? = some '(' ∧ s.getLast? = some ')' then Text.strip (s.drop 1).dropLast else s

/-- The text behind the name of a member: a quoted text without quotes in it, or a word. -/
def dropName (s : List Char) : Option (List Char) :=
  match s with
  | [] => none
  | c :: rest =>
      if isQuote c then
        match rest.dropWhile fun d => !isQuote d with
        | _ :: after => if rest.head?.any isQuote then none else some after
        | [] => none
      else if Name.isStart c then some (rest.dropWhile Name.isPart)
      else none

/-- Whether the text is a name, a colon and something behind it. -/
def isMember (s : List Char) : Bool :=
  match (dropName s).map Text.skipBlanks with
  | some (':' :: _ :: _) => true
  | _ => false

def wrapMember (s : List Char) : List Char :=
  if isMember s then ['\x7b', ' '] ++ s ++ [' ', '\x7d'] else s

/-- The value that a selection contains.  Text that starts with a bracket is only stripped. -/
def select (s : List Char) : List Char :=
  let text := Text.strip s
  let object := ['O', 'b', 'j', 'e', 'c', 't', ' ']
  let array := ['A', 'r', 'r', 'a', 'y', ' ']
  if text.head? = some '\x7b' ∨ text.head? = some '[' then text
  else if (object ++ ['\x7b']).isPrefixOf text then text.drop object.length
  else if (array ++ ['[']).isPrefixOf text then text.drop array.length
  else
    let value := dropAsConst (dropAssignment (dropExport text))
    wrapMember (dropParentheses (Text.strip (dropSemicolon value)))

end TypeSketch.Lenient
