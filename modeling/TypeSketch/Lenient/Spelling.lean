import TypeSketch.Json.Scan
import TypeSketch.Lenient.Decoration
import TypeSketch.Name.Identifier
import TypeSketch.Text.Alphanumeric

/-!
# The spelling of object literals

Object literals of a program may have strings in single quotes, bare names and the words
`undefined`, `NaN` and `Infinity`.  `respell` writes them as JSON: strings and names in double
quotes, and the words as null.
-/

namespace TypeSketch.Lenient

/-- The code of a `\u` escape, where the text is what stands behind the `u`. -/
def codeAt? (s : List Char) : Option Nat :=
  match s.take 4 with
  | [a, b, c, d] => Text.hexQuad? a b c d
  | _ => none

/-- The character of an escape whose `u` has been read, and how much of what follows belongs to it.
The escapes of a pair of halves are read one by one.  Where no four digits follow, the letter stands
for itself. -/
def readCode (s : List Char) : Char × Nat :=
  match codeAt? s with
  | none => ('u', 4)
  | some code => (Text.charOfCode code, 4)

/-- The character of an escape, where `d` stands behind the backslash and `more` behind `d`, and
how much of `more` belongs to the escape.  An unknown escape stands for its letter. -/
def readEscape (quote d : Char) (more : List Char) : Char × Nat :=
  if d = quote ∨ d = '\'' then (d, 0)
  else if d = 'u' then readCode more
  else ((Json.escaped? d).getD d, 0)

/-- The contents of a string behind its opening quote, and the text behind it.  A string that is
not closed goes to the end. -/
def readString (quote : Char) : List Char → List Char × List Char
  | [] => ([], [])
  | ['\\'] => (['\\'], [])
  | '\\' :: d :: more =>
      let escape := readEscape quote d more
      let string := readString quote (more.drop escape.2)
      (escape.1 :: string.1, string.2)
  | c :: rest =>
      if c = quote then ([], rest)
      else
        let string := readString quote rest
        (c :: string.1, string.2)
termination_by s => s.length
decreasing_by all_goals (simp only [List.length_drop, List.length_cons]; omega)

theorem length_readString_le (quote : Char) (s : List Char) :
    (readString quote s).2.length ≤ s.length := by
  fun_induction readString quote s
  case case1 => simp
  case case2 => simp
  case case3 d more escape string ih =>
    simp only [string, List.length_drop] at ih ⊢
    simp
    omega
  case case4 => simp
  case case5 c rest _ _ _ string ih =>
    simp only [string] at ih ⊢
    simp
    omega

/-- Whether a bare word may start behind the given character. -/
def startsWord (before : Option Char) : Bool :=
  match before with
  | none => true
  | some c => !(Text.isAlphanumeric c || c = '_' || c = '$')

/-- A bare word in JSON: a name in quotes in front of a colon, else null for the words without a
JSON value, else the word itself. -/
def respellWord (word after : List Char) : List Char :=
  if (Text.skipBlanks after).head? = some ':' then Text.jsonString word
  else if word = "undefined".toList ∨ word = "NaN".toList ∨ word = "Infinity".toList then
    "null".toList
  else word

/-- The text in JSON spelling, where `before` is the character in front of it. -/
def respellAfter (before : Option Char) (s : List Char) : List Char :=
  match s with
  | [] => []
  | c :: rest =>
      if isQuote c then
        let string := readString c rest
        Text.jsonString string.1 ++ respellAfter (some c) string.2
      else if Name.isStart c && startsWord before then
        let word := c :: rest.takeWhile Name.isPart
        let after := rest.dropWhile Name.isPart
        respellWord word after ++ respellAfter word.getLast? after
      else c :: respellAfter (some c) rest
termination_by s.length
decreasing_by
  · have := length_readString_le c rest
    simp
    omega
  · have := (List.dropWhile_sublist (l := rest) Name.isPart).length_le
    simp
    omega
  · simp

/-- The text in JSON spelling. -/
def respell (s : List Char) : List Char :=
  respellAfter none s

end TypeSketch.Lenient
