import TypeSketch.Literal

/-!
# JSON values

Integers and numbers with a fraction or an exponent are different data, objects keep the order of
their fields, and the words `NaN` and `Infinity` are numbers.
-/

namespace TypeSketch

inductive Json
  | null
  | scalar (literal : Literal)
  | array (items : List Json)
  | object (fields : List (String × Json))
deriving Inhabited

namespace Json

/-- The value of a field of an object. -/
def field? (name : String) : Json → Option Json
  | .object fields => fields.lookup name
  | _ => none

end Json

end TypeSketch
