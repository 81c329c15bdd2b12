import TypeSketch.Json.Basic
import TypeSketch.Entries
import TypeSketch.Sample

/-!
# Settings

What an option may be set to: data as configuration files hold it, where the keys of a mapping
need not be strings and some data, such as dates, are no data of JSON.  Keys that are equal as
numbers are one key.
-/

namespace TypeSketch

/-- A key of a mapping. -/
inductive MapKey
  | null
  | literal (literal : Literal)
  /-- A key of another kind: as plain text, and as messages show it. -/
  | other (text shown : List Char)
deriving DecidableEq

namespace MapKey

/-- The representative of the keys equal to this one. -/
def canonical : MapKey → MapKey
  | .literal l => .literal (l.canonical .number)
  | k => k

/-- The key as plain text. -/
def text : MapKey → List Char
  | .null => ['N', 'o', 'n', 'e']
  | .literal l => l.text
  | .other text _ => text

/-- The key as messages show it. -/
def shown : MapKey → List Char
  | .null => ['N', 'o', 'n', 'e']
  | .literal l => l.shown
  | .other _ shown => shown

end MapKey

inductive Setting
  | null
  | scalar (literal : Literal)
  | list (items : List Setting)
  | map (entries : List (MapKey × Setting))
  /-- Data of another kind, as messages show it. -/
  | other (shown : List Char)
deriving Inhabited

namespace Setting

/-- A mapping filled entry by entry. -/
def ofEntries (entries : List (MapKey × Setting)) : Setting :=
  .map (settleOn MapKey.canonical entries)

mutual

def ofJson : Json → Setting
  | .null => .null
  | .scalar l => .scalar l
  | .array items => .list (ofItems items)
  | .object fields => .map (ofFields fields)

def ofItems : List Json → List Setting
  | [] => []
  | v :: rest => ofJson v :: ofItems rest

def ofFields : List (String × Json) → List (MapKey × Setting)
  | [] => []
  | (name, v) :: rest => (.literal (.str name), ofJson v) :: ofFields rest

end

mutual

/-- The setting as messages show it. -/
def shown : Setting → List Char
  | .null => MapKey.null.shown
  | .scalar l => l.shown
  | .list items => '[' :: (shownItems items ++ [']'])
  | .map entries => '\x7b' :: (shownEntries entries ++ ['\x7d'])
  | .other shown => shown

def shownItems : List Setting → List Char
  | [] => []
  | [v] => v.shown
  | v :: rest => v.shown ++ ',' :: ' ' :: shownItems rest

def shownEntries : List (MapKey × Setting) → List Char
  | [] => []
  | [(k, v)] => k.shown ++ ':' :: ' ' :: v.shown
  | (k, v) :: rest => k.shown ++ ':' :: ' ' :: (v.shown ++ ',' :: ' ' :: shownEntries rest)

end

/-- The value of a key of a mapping. -/
def get? (key : MapKey) : Setting → Option Setting
  | .map entries =>
      (entries.find? fun e => e.1.canonical = key.canonical).map (·.2)
  | _ => none

end Setting

/-- A mapping as a record: each field has the text of its key as its name. -/
def Sample.ofEntries (entries : List (MapKey × Sample)) : Sample :=
  .record ((settleOn MapKey.canonical entries).map fun e => (String.ofList e.1.text, e.2))

end TypeSketch
