import TypeSketch.Shape.Key

/-!
# Merging shapes

Shapes that compete for one place become a single shape.  Objects are merged field by field,
primitives of one kind become a few literals or the bare kind, and what remains different stands
side by side in a union: strings, numbers, booleans, the object, arrays, null.

`consolidate`, `mergeObjects` and `collect` are the operations on arbitrary shapes; they refuse
shapes with holes.
-/

namespace TypeSketch.Shape

/-- The shapes up to structural equality; the first of equal ones stays. -/
def distinct (shapes : List Shape) : List Shape :=
  distinctOn identity shapes

/-- The shapes with each union replaced by its members. -/
def flatten (shapes : List Shape) : List Shape :=
  shapes.flatMap members

/-- The flat union of the shapes: no shape gives the unknown one, a single one stays as it is. -/
def unite (shapes : List Shape) : Shape :=
  match distinct (flatten shapes) with
  | [] => unknown
  | [s] => s
  | ms => .union ms

/-- The primitives that stand for all occurrences of one kind.  An occurrence without a literal
leaves the bare kind, and so do more than `threshold` different literals. -/
def widen (threshold : Nat) (kind : Kind) (occurrences : List (Option Literal)) : List Shape :=
  if occurrences = [] then []
  else
    let tokens := distinctOn (Literal.canonical kind)
      ((occurrences.filterMap id).map (Literal.token kind))
    if occurrences.all Option.isSome && 0 < threshold && tokens.length ≤ threshold then
      tokens.map fun l => .primitive kind (some l)
    else
      [.primitive kind none]

/-- What competes for one place, sorted by what is done with it. -/
structure Parts where
  scalars : List (Kind × Option Literal) := []
  objects : List (List (Field Shape)) := []
  arrays : List Shape := []
  hasNull : Bool := false

namespace Parts

/-- The parts with one more shape in front; unions and holes do not take part. -/
def add (s : Shape) (parts : Parts) : Parts :=
  match s with
  | .null => { parts with hasNull := true }
  | .primitive kind l => { parts with scalars := (kind, l) :: parts.scalars }
  | .array item => { parts with arrays := .array item :: parts.arrays }
  | .object fs => { parts with objects := fs :: parts.objects }
  | .union _ | .hole => parts

def ofShapes (shapes : List Shape) : Parts :=
  shapes.foldr add {}

def occurrences (parts : Parts) (kind : Kind) : List (Option Literal) :=
  parts.scalars.filterMap fun p => if p.1 = kind then some p.2 else none

/-- The shape of all the parts, where `fields` are the merged fields of the objects. -/
def combine (parts : Parts) (threshold : Nat) (fields : List (Field Shape)) : Shape :=
  unite
    (Kind.all.flatMap (fun kind => widen threshold kind (parts.occurrences kind)) ++
      (if parts.objects = [] then [] else [.object fields]) ++
      parts.arrays ++
      (if parts.hasNull then [.null] else []))

end Parts

/-- The names of all fields, each where it is first met. -/
def fieldNames (bodies : List (List (Field Shape))) : List String :=
  distinctOn id (bodies.flatMap fun fs => fs.map (·.name))

/-- The fields of the given name, one for each object that has it. -/
def fieldsNamed (name : String) (bodies : List (List (Field Shape))) : List (Field Shape) :=
  bodies.filterMap fun fs => fs.find? fun f => f.name = name

/-- The number of nodes and fields in several objects. -/
def bodiesSize : List (List (Field Shape)) → Nat
  | [] => 0
  | fs :: rest => fieldsSize fs + bodiesSize rest

theorem totalSize_append (xs ys : List Shape) :
    totalSize (xs ++ ys) = totalSize xs + totalSize ys := by
  induction xs with
  | nil => simp [totalSize]
  | cons x xs ih => simp [totalSize, ih]; omega

theorem totalSize_le_of_sublist {xs ys : List Shape} (h : xs.Sublist ys) :
    totalSize xs ≤ totalSize ys := by
  induction h with
  | slnil => simp
  | cons x _ ih => simp [totalSize]; omega
  | cons_cons x _ ih => simp [totalSize]; omega

theorem totalSize_members_le (s : Shape) : totalSize s.members ≤ s.size := by
  cases s <;> simp [members, totalSize, size]

theorem totalSize_flatten_le (shapes : List Shape) :
    totalSize (flatten shapes) ≤ totalSize shapes := by
  induction shapes with
  | nil => simp [flatten]
  | cons s rest ih =>
      simp only [flatten, List.flatMap_cons, totalSize_append, totalSize] at *
      have := totalSize_members_le s
      omega

theorem totalSize_distinct_le (shapes : List Shape) :
    totalSize (distinct shapes) ≤ totalSize shapes :=
  totalSize_le_of_sublist (distinctOn_sublist _ _)

theorem bodiesSize_objects_le (shapes : List Shape) :
    bodiesSize (Parts.ofShapes shapes).objects ≤ totalSize shapes := by
  induction shapes with
  | nil => simp [Parts.ofShapes, bodiesSize]
  | cons s rest ih =>
      cases s <;> simp [Parts.ofShapes, Parts.add, bodiesSize, totalSize, size] at * <;> omega

theorem size_lt_of_find? {name : String} {f : Field Shape} :
    ∀ {fs : List (Field Shape)}, fs.find? (fun f => f.name = name) = some f →
      f.content.size + 1 ≤ fieldsSize fs
  | [], h => by simp at h
  | g :: fs, h => by
      rw [List.find?_cons] at h
      split at h
      · cases h
        simp [fieldsSize]
      · have := size_lt_of_find? h
        simp [fieldsSize]
        omega

theorem totalSize_fieldsNamed_le (name : String) (bodies : List (List (Field Shape))) :
    totalSize ((fieldsNamed name bodies).map (·.content)) + (fieldsNamed name bodies).length
      ≤ bodiesSize bodies := by
  induction bodies with
  | nil => simp [fieldsNamed, totalSize, bodiesSize]
  | cons fs rest ih =>
      simp only [fieldsNamed, bodiesSize, List.filterMap_cons] at *
      cases h : fs.find? fun f => f.name = name with
      | none => simp; omega
      | some f =>
          have := size_lt_of_find? h
          simp [totalSize]
          omega

mutual

/-- One shape for all that compete for a place. -/
def merge (threshold : Nat) (shapes : List Shape) : Except ShapeFault Shape :=
  match _h : distinct (flatten shapes) with
  | [s] => .ok s
  | flat =>
      if flat.any isUnion then .error .nestedUnion
      else do
        let fields ← mergeFields threshold (Parts.ofShapes flat).objects
        .ok ((Parts.ofShapes flat).combine threshold fields)
termination_by 2 * totalSize shapes + 1
decreasing_by
  have h₁ := bodiesSize_objects_le flat
  have h₂ := totalSize_distinct_le (flatten shapes)
  have h₃ := totalSize_flatten_le shapes
  rw [_h] at h₂
  omega

/-- The fields of several objects as those of one.  A field is optional if it is so in some object
or some object lacks it. -/
def mergeFields (threshold : Nat) (bodies : List (List (Field Shape))) :
    Except ShapeFault (List (Field Shape)) :=
  if bodies.length ≤ 1 then .ok (bodies.headD [])
  else
    (fieldNames bodies).mapM fun name => do
      let present := fieldsNamed name bodies
      let shape ←
        match _h : distinct (present.map (·.content)) with
        | [] => .ok unknown
        | [s] => .ok s
        | s :: t :: rest => merge threshold (s :: t :: rest)
      .ok ⟨name, shape, present.length < bodies.length || present.any (·.isOptional)⟩
termination_by 2 * bodiesSize bodies
decreasing_by
  have h₁ := totalSize_fieldsNamed_le name bodies
  have h₂ := totalSize_distinct_le ((fieldsNamed name bodies).map (·.content))
  have h₃ := (distinctOn_sublist identity ((fieldsNamed name bodies).map (·.content))).length_le
  change distinct ((fieldsNamed name bodies).map (·.content)) = _ at _h
  rw [_h] at h₂
  change (distinct _).length ≤ _ at h₃
  rw [_h] at h₃
  simp at h₃
  omega

end

/-- Reduces shapes that compete for one place to a single shape. -/
def consolidate (threshold : Nat) (shapes : List Shape) : Except ShapeFault Shape :=
  if allWhole shapes then merge threshold shapes else .error .hole

/-- Merges object shapes into one.  A shape that stands alone is returned as it is. -/
def mergeObjects (threshold : Nat) (shapes : List Shape) : Except ShapeFault Shape :=
  match shapes with
  | [] => .ok (.object [])
  | [s] => .ok s
  | _ =>
      match shapes.mapM fields? with
      | none => .error .notAnObject
      | some bodies =>
          if allWhole shapes then (mergeFields threshold bodies).map .object else .error .hole

/-- The flat union of the shapes without repetition. -/
def collect (shapes : List Shape) : Except ShapeFault Shape :=
  if allWhole shapes then .ok (unite shapes) else .error .hole

end TypeSketch.Shape
