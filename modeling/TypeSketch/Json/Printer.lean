import TypeSketch.Json.Basic

/-!
# Printing JSON

A value on one line, with a space behind each comma and colon.
-/

namespace TypeSketch.Json

mutual

def render : Json → List Char
  | .null => ['n', 'u', 'l', 'l']
  | .scalar l => l.json
  | .array items => '[' :: (renderItems items ++ [']'])
  | .object fields => '{' :: (renderFields fields ++ ['}'])

def renderItems : List Json → List Char
  | [] => []
  | [v] => render v
  | v :: rest => render v ++ ',' :: ' ' :: renderItems rest

def renderFields : List (String × Json) → List Char
  | [] => []
  | [(name, v)] => Text.jsonString name.toList ++ ':' :: ' ' :: render v
  | (name, v) :: rest =>
      Text.jsonString name.toList ++ ':' :: ' ' :: (render v ++ ',' :: ' ' :: renderFields rest)

end

end TypeSketch.Json
