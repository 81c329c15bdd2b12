import TypeSketch.Entries
import TypeSketch.Shape.Basic
import TypeSketch.Text.Order

/-!
# Keys of shapes

The key of a shape leaves out what does not count for structural equality: the order of the
fields of an object and of the members of a union, and repeated members.  Two shapes are the same
when their keys agree up to equal literals.
-/

namespace TypeSketch

inductive Key
  | null
  | primitive (kind : Kind) (literal : Option Literal)
  | array (item : Key)
  | object (fields : List (Field Key))
  | union (members : List Key)
  | hole

namespace Key

mutual

def beq : Key → Key → Bool
  | .null, .null => true
  | .primitive k l, .primitive k' l' => k == k' && l == l'
  | .array a, .array b => beq a b
  | .object fs, .object gs => beqFields fs gs
  | .union ks, .union ls => beqMembers ks ls
  | .hole, .hole => true
  | _, _ => false

def beqFields : List (Field Key) → List (Field Key) → Bool
  | [], [] => true
  | ⟨n, k, o⟩ :: fs, ⟨n', k', o'⟩ :: gs => n == n' && (beq k k' && o == o') && beqFields fs gs
  | _, _ => false

def beqMembers : List Key → List Key → Bool
  | [], [] => true
  | k :: ks, l :: ls => beq k l && beqMembers ks ls
  | _, _ => false

end

mutual

theorem beq_iff : ∀ a b : Key, beq a b = true ↔ a = b
  | .null, b => by cases b <;> simp [beq]
  | .primitive k l, b => by cases b <;> simp [beq]
  | .array a, b => by cases b <;> simp [beq, beq_iff a]
  | .object fs, b => by cases b <;> simp [beq, beqFields_iff fs]
  | .union ks, b => by cases b <;> simp [beq, beqMembers_iff ks]
  | .hole, b => by cases b <;> simp [beq]

theorem beqFields_iff : ∀ fs gs : List (Field Key), beqFields fs gs = true ↔ fs = gs
  | [], gs => by cases gs <;> simp [beqFields]
  | ⟨n, k, o⟩ :: fs, gs => by
      rcases gs with _ | ⟨⟨n', k', o'⟩, gs⟩
      · simp [beqFields]
      · simp [beqFields, beq_iff k, beqFields_iff fs]

theorem beqMembers_iff : ∀ ks ls : List Key, beqMembers ks ls = true ↔ ks = ls
  | [], ls => by cases ls <;> simp [beqMembers]
  | k :: ks, ls => by cases ls <;> simp [beqMembers, beq_iff k, beqMembers_iff ks]

end

instance : DecidableEq Key := fun a b => decidable_of_iff _ (beq_iff a b)

mutual

/-- The key with each literal replaced by the representative of the literals equal to it. -/
def canonical : Key → Key
  | .primitive kind l => .primitive kind (l.map (Literal.canonical kind))
  | .array k => .array k.canonical
  | .object fs => .object (canonicalFields fs)
  | .union ks => .union (canonicalMembers ks)
  | .null => .null
  | .hole => .hole

def canonicalFields : List (Field Key) → List (Field Key)
  | [] => []
  | ⟨n, k, o⟩ :: rest => ⟨n, k.canonical, o⟩ :: canonicalFields rest

def canonicalMembers : List Key → List Key
  | [] => []
  | k :: rest => k.canonical :: canonicalMembers rest

end

/-- Texts with a comma and a space between them. -/
def commaSeparated : List (List Char) → List Char
  | [] => []
  | [t] => t
  | t :: rest => t ++ ',' :: ' ' :: commaSeparated rest

/-- Texts in parentheses; a single one is followed by a comma. -/
def tuple : List (List Char) → List Char
  | [t] => '(' :: (t ++ [',', ')'])
  | ts => '(' :: (commaSeparated ts ++ [')'])

def shownName (s : String) : List Char := Text.shown s.toList

mutual

/-- The written form by which the members of a union are put in order. -/
def text : Key → List Char
  | .null => tuple [shownName "null"]
  | .primitive kind none => tuple [shownName "primitive", shownName kind.name]
  | .primitive kind (some l) => tuple [shownName "primitive", shownName kind.name, l.shown]
  | .array k => tuple [shownName "array", k.text]
  | .object fs => tuple [shownName "object", tuple (textsOfFields fs)]
  | .union ks => tuple [shownName "union", tuple (texts ks)]
  | .hole => tuple []

def textsOfFields : List (Field Key) → List (List Char)
  | [] => []
  | ⟨n, k, o⟩ :: rest =>
      tuple [shownName n, (Literal.bool o).text, k.text] :: textsOfFields rest

def texts : List Key → List (List Char)
  | [] => []
  | k :: rest => k.text :: texts rest

end

/-- Texts in brackets with commas between them. -/
def bracketed : List (List Char) → List Char
  | ts => '[' :: ((ts.intersperse [',']).flatten ++ [']'])

def jsonName (s : String) : List Char := Text.jsonString s.toList

mutual

/-- The key as compact JSON text. -/
def json : Key → List Char
  | .null => bracketed [jsonName "null"]
  | .primitive kind none => bracketed [jsonName "primitive", jsonName kind.name]
  | .primitive kind (some l) => bracketed [jsonName "primitive", jsonName kind.name, l.json]
  | .array k => bracketed [jsonName "array", k.json]
  | .object fs => bracketed [jsonName "object", bracketed (jsonsOfFields fs)]
  | .union ks => bracketed [jsonName "union", bracketed (jsons ks)]
  | .hole => bracketed []

def jsonsOfFields : List (Field Key) → List (List Char)
  | [] => []
  | ⟨n, k, o⟩ :: rest =>
      bracketed [jsonName n, (Literal.bool o).json, k.json] :: jsonsOfFields rest

def jsons : List Key → List (List Char)
  | [] => []
  | k :: rest => k.json :: jsons rest

end

/-- The distinct keys in the order of their written forms. -/
def arrange (ks : List Key) : List Key :=
  (distinctOn canonical ks).mergeSort fun a b => Text.le a.text b.text

end Key

/-- Fields in the order of their names. -/
def sortFields {α : Type} (fs : List (Field α)) : List (Field α) :=
  fs.mergeSort fun f g => decide (f.name ≤ g.name)

namespace Shape

mutual

def key : Shape → Key
  | .null => .null
  | .primitive kind l => .primitive kind (l.map (Literal.token kind))
  | .array s => .array s.key
  | .object fs => .object (sortFields (keysOfFields fs))
  | .union ms => .union (Key.arrange (keys ms))
  | .hole => .hole

def keysOfFields : List (Field Shape) → List (Field Key)
  | [] => []
  | ⟨n, s, o⟩ :: rest => ⟨n, s.key, o⟩ :: keysOfFields rest

def keys : List Shape → List Key
  | [] => []
  | s :: rest => s.key :: keys rest

end

/-- What two structurally equal shapes have in common. -/
def identity (s : Shape) : Key := s.key.canonical

/-- Whether two shapes are structurally equal. -/
def same (a b : Shape) : Bool := a.identity = b.identity

/-- The key of a shape as one text. -/
def hash (s : Shape) : List Char := s.key.json

/-- The key of a shape without holes as one text. -/
def hash? (s : Shape) : Except ShapeFault (List Char) :=
  if s.isWhole then .ok s.hash else .error .hole

/-- Whether two shapes without holes are structurally equal. -/
def equal? (a b : Shape) : Except ShapeFault Bool :=
  if a.isWhole && b.isWhole then .ok (a.same b) else .error .hole

end Shape

end TypeSketch
