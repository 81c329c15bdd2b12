import TypeSketch.Json.Parser
import TypeSketch.Lenient.Selection
import TypeSketch.Lenient.Spelling

/-!
# Lenient parsing

A text is read as JSON if it is JSON; else as the JSON that is left of it without what stands
around and between; else in JSON spelling.  The fault of the last attempt is reported.
-/

namespace TypeSketch.Lenient

def parse (s : List Char) : Except Json.SyntaxError Json :=
  match Json.parse s with
  | .ok v => .ok v
  | .error _ =>
      let cleaned := clean (select s)
      match Json.parse cleaned with
      | .ok v => .ok v
      | .error _ => Json.parse (respell cleaned)

end TypeSketch.Lenient
