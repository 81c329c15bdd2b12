import TypeSketch.Entries
import TypeSketch.Name.Identifier
import TypeSketch.Text.Case

/-!
# Singular forms

The singular of the last word of a name, in the case of that word.  Overrides come before the
words with an irregular plural, these before the words that only look like plurals, and last come
the endings.
-/

namespace TypeSketch.Name

/-- Words whose plural does not show the singular. -/
def irregularPlurals : List (String × String) :=
  [("people", "person"), ("children", "child"), ("geese", "goose"), ("mice", "mouse"),
   ("men", "man"), ("women", "woman"), ("indices", "index"), ("data", "datum"),
   ("feet", "foot"), ("teeth", "tooth"), ("oxen", "ox"), ("criteria", "criterion"),
   ("phenomena", "phenomenon"), ("analyses", "analysis"), ("bases", "basis"),
   ("crises", "crisis"), ("hypotheses", "hypothesis"), ("oases", "oasis"),
   ("parentheses", "parenthesis"), ("synopses", "synopsis"), ("theses", "thesis"),
   ("vertices", "vertex"), ("matrices", "matrix"), ("appendices", "appendix"),
   ("codices", "codex")]

/-- Words that look like plurals and are none. -/
def invariants : List String :=
  ["status", "species", "news", "css", "series", "scissors", "glasses", "pants", "jeans",
   "shorts", "trousers", "headquarters", "means", "deer", "sheep", "fish", "aircraft",
   "spacecraft", "mathematics", "physics", "economics", "politics", "athletics", "gymnastics",
   "acoustics", "optics", "electronics", "dynamics", "statistics", "mechanics", "ethics",
   "semantics", "phonetics", "genetics"]

/-- The endings behind which a plural has `es`. -/
def sibilantEndings : List (List Char) :=
  [['x', 'e', 's'], ['c', 'h', 'e', 's'], ['s', 'h', 'e', 's'], ['s', 's', 'e', 's'],
   ['z', 'e', 's']]

/-- The result in the case of the original: all capitals, a capital first, or as it is. -/
def matchCase (result original : List Char) : List Char :=
  match original with
  | [] => result
  | c :: _ =>
      if Text.isUpperText original then Text.toUpper result
      else if Text.isUpperCase c then
        match result with
        | [] => []
        | d :: rest => Text.upperOf d ++ rest
      else result

/-- A text without its last `n` characters. -/
def dropEnd (n : Nat) (s : List Char) : List Char :=
  s.take (s.length - n)

/-- The last `n` characters of a text. -/
def takeEnd (n : Nat) (s : List Char) : List Char :=
  s.drop (s.length - n)

/-- The singular of a word that no table knows, by its ending in lower case. -/
def singularByEnding (word lower : List Char) : List Char :=
  if ['i', 'e', 's'].isSuffixOf lower ∧ 3 < lower.length then
    dropEnd 3 word ++ [if Text.isUpperText (takeEnd 3 word) then 'Y' else 'y']
  else if sibilantEndings.any (·.isSuffixOf (chomp lower)) then dropEnd 2 word
  else if ['s'].isSuffixOf lower ∧ ¬ ['s', 's'].isSuffixOf lower ∧ 1 < lower.length then
    dropEnd 1 word
  else word

/-- The singular of a single word; the names of overrides are in lower case. -/
def singularWord (overrides : List (String × String)) (word : List Char) : List Char :=
  let lower := Text.toLower word
  match overrides.lookup (String.ofList lower) with
  | some s => matchCase s.toList word
  | none =>
      match irregularPlurals.lookup (String.ofList lower) with
      | some s => matchCase s.toList word
      | none =>
          if invariants.contains (String.ofList lower) then word
          else singularByEnding word lower

/-- Whether the text is one word: small letters, which a capital may precede, or capitals, or
digits and small letters. -/
def isLastWord (s : List Char) : Bool :=
  (match s with
    | [] => false
    | c :: rest => (c.isUpper && !rest.isEmpty && rest.all Char.isLower)) ||
  (!s.isEmpty && (s.all Char.isUpper || s.all fun c => c.isDigit || c.isLower))

/-- Splits a text in front of the longest last word it ends with. -/
def splitLastWord : List Char → Option (List Char × List Char)
  | [] => none
  | c :: rest =>
      if isLastWord (c :: rest) then some ([], c :: rest)
      else (splitLastWord rest).map fun p => (c :: p.1, p.2)

/-- The text with its last word in the singular.  A text of several lines, or whose last word is
a single character, is one word. -/
def singularize (overrides : List (String × String)) (word : List Char) : List Char :=
  let line := chomp word
  let parts := if line.contains '\n' then none else splitLastWord line
  match parts with
  | some (before, last) =>
      if last.length < 2 then singularWord overrides word
      else before ++ singularWord overrides last
  | none => singularWord overrides word

/-- The overrides with their names in lower case; of names that become equal the last counts. -/
def lowerOverrides (overrides : List (String × String)) : List (String × String) :=
  settle (overrides.map fun p => (String.ofList (Text.toLower p.1.toList), p.2))

end TypeSketch.Name
