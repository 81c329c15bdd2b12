import TypeSketch.Text.Quoted

/-!
# Identifiers

Type names are built from field names in camel case.  A key is printed bare when it is an
identifier and no reserved word, and in quotes otherwise.
-/

namespace TypeSketch.Name

def reservedWords : List String :=
  ["break", "case", "catch", "class", "const", "continue", "debugger", "default", "delete", "do",
   "else", "enum", "export", "extends", "false", "finally", "for", "function", "if", "import",
   "in", "instanceof", "new", "null", "return", "super", "switch", "this", "throw", "true", "try",
   "typeof", "var", "void", "while", "with", "yield", "let", "static", "implements", "interface",
   "package", "private", "protected", "public", "abstract", "as", "async", "await", "declare",
   "from", "get", "is", "keyof", "module", "namespace", "never", "readonly", "require", "set",
   "type", "unique", "unknown", "any", "boolean", "number", "string", "symbol", "object",
   "undefined"]

def isReserved (word : List Char) : Bool :=
  reservedWords.contains (String.ofList word)

/-- ASCII letters, the underscore and the dollar sign. -/
def isStart (c : Char) : Bool :=
  c.isAlpha || c = '_' || c = '$'

/-- What an identifier may go on with. -/
def isPart (c : Char) : Bool :=
  c.isAlphanum || c = '_' || c = '$'

/-- Whether the whole text is an identifier. -/
def isWord : List Char → Bool
  | [] => false
  | c :: rest => isStart c && rest.all isPart

/-- The text without a line feed at its end, which patterns do not see there. -/
def chomp (s : List Char) : List Char :=
  if s.getLast? = some '\n' then s.dropLast else s

/-- Whether the text, apart from a line feed at its end, is an identifier and no reserved word. -/
def isIdentifier (s : List Char) : Bool :=
  isWord (chomp s) && !isReserved s

/-- Whether a character stands for itself in camel case; all others separate words. -/
def isCamelPart (c : Char) : Bool :=
  c.isAlphanum || c = '$'

/-- The words joined, with a capital behind each separator.  `separated` tells whether one has
just been passed. -/
def joinWords (separated : Bool) : List Char → List Char
  | [] => []
  | c :: rest =>
      if isCamelPart c then (if separated then c.toUpper else c) :: joinWords false rest
      else joinWords true rest

def lowerFirst : List Char → List Char
  | [] => []
  | c :: rest => c.toLower :: rest

/-- `user_name`, `user-name` and `user name` become `userName`. -/
def toCamelCase (s : List Char) : List Char :=
  lowerFirst (joinWords false s)

def typeSuffix : List Char := ['T', 'y', 'p', 'e']

/-- The camel-case name with a suffix, and an underscore in front of a digit. -/
def typeName (base suffix : List Char) : List Char :=
  let name := toCamelCase base
  match name with
  | c :: _ => if c.isDigit then '_' :: (name ++ suffix) else name ++ suffix
  | [] => suffix

/-- The name of the root type: one that ends in `Type` is kept. -/
def rootName (name : List Char) : List Char :=
  if typeSuffix.isSuffixOf name then name else typeName name typeSuffix

/-- A field name as it is printed. -/
def printedKey (quote : Char) (name : List Char) : List Char :=
  if isIdentifier name then name else Text.enclosed quote name

end TypeSketch.Name
