import TypeSketch.Literal

/-!
# Shapes

The inferred type of data.  A field of an object shape is optional when some instance lacks it.
A `hole` marks a place where no shape was given; operations that have to look into it fail.
-/

namespace TypeSketch

/-- A named part of an object. -/
structure Field (α : Type) where
  name : String
  content : α
  isOptional : Bool := false
deriving DecidableEq

inductive Shape
  | null
  | primitive (kind : Kind) (literal : Option Literal)
  | array (item : Shape)
  | object (fields : List (Field Shape))
  | union (members : List Shape)
  | hole
deriving Inhabited

/-- Why an operation on shapes fails. -/
inductive ShapeFault
  /-- The data is nested deeper than the limit. -/
  | tooDeep (limit : Nat)
  /-- There is a hole in a shape. -/
  | hole
  /-- A union to be merged has a union among its members. -/
  | nestedUnion
  /-- A shape other than an object was to be merged as one. -/
  | notAnObject
  /-- A shape other than a primitive was to be written as one. -/
  | notAPrimitive
  /-- A union without members was to be written. -/
  | emptyUnion
deriving DecidableEq

def ShapeFault.message : ShapeFault → String
  | .tooDeep limit => s!"Input is nested deeper than the maximum depth of {limit}"
  | .hole => "not a shape"
  | .nestedUnion => "union inside a union"
  | .notAnObject => "not an object shape"
  | .notAPrimitive => "not a primitive shape"
  | .emptyUnion => "union shapes always have members"

namespace Shape

/-- The shape of which nothing is known: that of the items of an empty array, and of foreign
data. -/
def unknown : Shape := .primitive .string none

def isNull : Shape → Bool
  | .null => true
  | _ => false

def isUnion : Shape → Bool
  | .union _ => true
  | _ => false

/-- Primitives and null. -/
def isScalar : Shape → Bool
  | .primitive _ _ | .null => true
  | _ => false

/-- The members of a union; any other shape is its own only member. -/
def members : Shape → List Shape
  | .union ms => ms
  | s => [s]

/-- The fields of an object shape. -/
def fields? : Shape → Option (List (Field Shape))
  | .object fs => some fs
  | _ => none

mutual

/-- Whether there is no hole anywhere. -/
def isWhole : Shape → Bool
  | .null | .primitive _ _ => true
  | .array s => s.isWhole
  | .object fs => fieldsWhole fs
  | .union ms => allWhole ms
  | .hole => false

def fieldsWhole : List (Field Shape) → Bool
  | [] => true
  | ⟨_, s, _⟩ :: rest => s.isWhole && fieldsWhole rest

def allWhole : List Shape → Bool
  | [] => true
  | s :: rest => s.isWhole && allWhole rest

end

mutual

/-- The number of nodes and fields of a shape, by which the merging of shapes terminates. -/
def size : Shape → Nat
  | .null | .primitive _ _ | .hole => 1
  | .array s => s.size + 1
  | .object fs => fieldsSize fs + 1
  | .union ms => totalSize ms + 1

def fieldsSize : List (Field Shape) → Nat
  | [] => 0
  | ⟨_, s, _⟩ :: rest => s.size + 1 + fieldsSize rest

def totalSize : List Shape → Nat
  | [] => 0
  | s :: rest => s.size + totalSize rest

end

/-- A short summary: objects are counted, not listed. -/
def describe : Shape → Except ShapeFault (List Char)
  | .null => .ok "null".toList
  | .primitive kind none => .ok kind.name.toList
  | .primitive kind (some l) => .ok (kind.name.toList ++ '(' :: (l.shown ++ [')']))
  | .array s => s.describe.map fun t => "array<".toList ++ t ++ ['>']
  | .object fs => .ok s!"object({fs.length} fields)".toList
  | .union ms => describeMembers ms
  | .hole => .error .hole
where
  describeMembers : List Shape → Except ShapeFault (List Char)
    | [] => .ok []
    | [s] => s.describe
    | s :: rest => do
        let first ← s.describe
        let others ← describeMembers rest
        pure (first ++ " | ".toList ++ others)

end Shape

end TypeSketch
