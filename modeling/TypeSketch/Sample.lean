import TypeSketch.Json.Basic

/-!
# Samples

The data whose type is inferred: what JSON can write, and `foreign` for a value it cannot.  A
record may name a field twice; then the last value counts.
-/

namespace TypeSketch

inductive Sample
  | null
  | scalar (literal : Literal)
  | foreign
  | list (items : List Sample)
  | record (fields : List (String × Sample))
deriving Inhabited

namespace Sample

mutual

def ofJson : Json → Sample
  | .null => .null
  | .scalar l => .scalar l
  | .array items => .list (ofItems items)
  | .object fields => .record (ofFields fields)

def ofItems : List Json → List Sample
  | [] => []
  | v :: rest => ofJson v :: ofItems rest

def ofFields : List (String × Json) → List (String × Sample)
  | [] => []
  | (name, v) :: rest => (name, ofJson v) :: ofFields rest

end

end Sample

end TypeSketch
