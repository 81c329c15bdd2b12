import TypeSketch.Text.CaseTable

/-!
# Upper and lower case

`toLower` and `toUpper` map whole texts, since one character may become several and a capital
sigma becomes `ς` at the end of a word and `σ` elsewhere.
-/

namespace TypeSketch.Text

def isUpperCase (c : Char) : Bool :=
  c.isUpper || upperCase.any (·.has c)

def isLowerCase (c : Char) : Bool :=
  c.isLower || lowerCase.any (·.has c)

def isTitleCase (c : Char) : Bool :=
  inSpans titleCase c

def isCased (c : Char) : Bool :=
  isUpperCase c || isLowerCase c || isTitleCase c

/-- The character a row list maps `c` to, or `c` itself. -/
def shifted (rows : List (Stride × Int)) (c : Char) : Char :=
  match rows.find? (·.1.has c) with
  | some (_, offset) => Char.ofNat (c.toNat + offset).toNat
  | none => c

def lowerOf (c : Char) : List Char :=
  if c.toNat < 0x80 then [c.toLower]
  else if c.toNat = 0x130 then ['i', Char.ofNat 0x307]
  else [shifted toLowerRows c]

def upperOf (c : Char) : List Char :=
  if c.toNat < 0x80 then [c.toUpper]
  else
    match toUpperLists.lookup c.toNat with
    | some codes => codes.map Char.ofNat
    | none => [shifted toUpperRows c]

/-- Whether the text goes on with a cased character, looking past those that do not end a word. -/
def continuesWord (s : List Char) : Bool :=
  match s.dropWhile (inSpans caseIgnorable) with
  | [] => false
  | c :: _ => isCased c

/-- Lower case of the text `rest`, where `before` holds the characters ahead of it, last first. -/
def toLowerAfter (before : List Char) : List Char → List Char
  | [] => []
  | c :: rest =>
      let lowered :=
        if c = 'Σ' then
          if continuesWord before && !continuesWord rest then ['ς'] else ['σ']
        else lowerOf c
      lowered ++ toLowerAfter (c :: before) rest

def toLower (s : List Char) : List Char :=
  toLowerAfter [] s

def toUpper (s : List Char) : List Char :=
  s.flatMap upperOf

/-- At least one capital, and no small or title-case letter. -/
def isUpperText (s : List Char) : Bool :=
  s.any isUpperCase && s.all fun c => !(isLowerCase c || isTitleCase c)

end TypeSketch.Text
