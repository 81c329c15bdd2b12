import TypeSketch.Sample
import TypeSketch.Shape.Merge

/-!
# Inference

The shape of a sample.  The items of an array are unified into one shape, so that objects are
merged field by field.  Data nested deeper than a limit is refused: the root has depth 0, an
element or a field is one deeper than its container, and only arrays and the values of fields are
measured.
-/

namespace TypeSketch

/-- What inference depends on. -/
structure Limits where
  /-- The most different literals that a kind may show; none are tracked at zero. -/
  literals : Nat := 0
  /-- The greatest depth that is accepted. -/
  depth : Nat := 200

namespace Sample

/-- Fails for what lies too deep. -/
def checkDepth (limits : Limits) (depth : Nat) : Except ShapeFault Unit :=
  if limits.depth < depth then .error (.tooDeep limits.depth) else .ok ()

/-- The fields of an object in the order of their first mention; the last mention counts. -/
def settleFields (fs : List (Field Shape)) : List (Field Shape) :=
  (settle (fs.map fun f => (f.name, f))).map (·.2)

/-- The shape of an array whose items bring the given parts; an empty one has unknown items. -/
def arrayShape (limits : Limits) (parts : Shape.Parts) : Except ShapeFault Shape := do
  let fields ← Shape.mergeFields limits.literals parts.objects
  .ok (.array (parts.combine limits.literals fields))

mutual

/-- The shape of a sample at the given depth. -/
def shapeAt (limits : Limits) (depth : Nat) (v : Sample) : Except ShapeFault Shape := do
  checkDepth limits depth
  match v with
  | .null => .ok .null
  | .scalar l => .ok (.primitive l.kind (if 0 < limits.literals then some l else none))
  | .foreign => .ok .unknown
  | .list items => do
      let parts ← partsAt limits depth items
      arrayShape limits parts
  | .record fields => do
      let fields ← fieldsAt limits (depth + 1) fields
      .ok (.object (settleFields fields))

/-- What the items of an array at the given depth bring to its item shape. -/
def partsAt (limits : Limits) (depth : Nat) : List Sample → Except ShapeFault Shape.Parts
  | [] => .ok {}
  | v :: rest => do
      let parts ← partsAt limits depth rest
      match v with
      | .null => .ok { parts with hasNull := true }
      | .scalar l => .ok { parts with scalars := (l.kind, some l) :: parts.scalars }
      | .foreign => .ok { parts with scalars := (.string, none) :: parts.scalars }
      | .list items => do
          checkDepth limits (depth + 1)
          let inner ← partsAt limits (depth + 1) items
          let s ← arrayShape limits inner
          .ok { parts with arrays := s :: parts.arrays }
      | .record fields => do
          let fields ← fieldsAt limits (depth + 2) fields
          .ok { parts with objects := settleFields fields :: parts.objects }

/-- The fields of an object whose values lie at the given depth. -/
def fieldsAt (limits : Limits) (depth : Nat) :
    List (String × Sample) → Except ShapeFault (List (Field Shape))
  | [] => .ok []
  | (name, v) :: rest => do
      let s ← shapeAt limits depth v
      let others ← fieldsAt limits depth rest
      .ok (⟨name, s, false⟩ :: others)

end

/-- The shape of a sample. -/
def shape (limits : Limits) (v : Sample) : Except ShapeFault Shape :=
  shapeAt limits 0 v

end Sample

end TypeSketch
