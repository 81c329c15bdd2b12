import TypeSketch.Declaration.Order

/-!
# Type expressions

`typeOf` writes a shape as a type expression and declares the objects it meets on the way.  An
object that was declared before is referred to by its name.  What has been declared stays in the
registry also when the writing fails further on.
-/

namespace TypeSketch

/-- The registry while an expression is written, and the names the expression refers to. -/
structure Emission where
  registry : Registry
  references : List String := []

/-- A step of writing: it may fail, and it changes the registry in any case. -/
abbrev Emit (α : Type) := ExceptT ShapeFault (StateM Emission) α

namespace Shape

mutual

/-- The shape with the fields of each object in the order of their names. -/
def sorted : Shape → Shape
  | .null => .null
  | .primitive kind l => .primitive kind l
  | .array s => .array s.sorted
  | .object fs => .object (sortFields (sortedFields fs))
  | .union ms => .union (sortedMembers ms)
  | .hole => .hole

def sortedFields : List (Field Shape) → List (Field Shape)
  | [] => []
  | ⟨n, s, o⟩ :: rest => ⟨n, s.sorted, o⟩ :: sortedFields rest

def sortedMembers : List Shape → List Shape
  | [] => []
  | s :: rest => s.sorted :: sortedMembers rest

end

end Shape

namespace Emission

/-- The most fields of an object that is written inline. -/
def inlineLimit : Nat := 2

/-- Whether an object with these fields is written in place. -/
def isInline (o : Options) (fields : List (Field Shape)) : Bool :=
  !o.extractObjects && fields.length ≤ inlineLimit && fields.all (·.content.isScalar)

/-- Whether a shape is written in place; only an object can be asked, unless all are declared. -/
def shouldInline (o : Options) (s : Shape) : Except ShapeFault Bool :=
  if o.extractObjects then .ok false
  else
    match s with
    | .object fields => .ok (isInline o fields)
    | _ => .error .notAnObject

/-- Whether the shape gets a declaration of its own. -/
def declares (o : Options) : Shape → Bool
  | .object fields => !isInline o fields
  | _ => false

def primitiveText (o : Options) (kind : Kind) (literal : Option Literal) : List Char :=
  match literal with
  | none => kind.name.toList
  | some l =>
      match kind with
      | .string => Text.enclosed o.quote.char l.text
      | _ =>
          match l.token kind with
          | .bool b => if b then "true".toList else "false".toList
          | t => t.text

/-- The text of a primitive shape. -/
def formatPrimitive (o : Options) : Shape → Except ShapeFault (List Char)
  | .primitive kind l => .ok (primitiveText o kind l)
  | _ => .error .notAPrimitive

/-- The type name suggested for the value of a field. -/
def suggestedName (o : Options) (field : String) : String :=
  let base := if o.singularize then Name.singularize o.overrides field.toList else field.toList
  String.ofList (Name.typeName base Name.typeSuffix)

def arrayText (item : List Char) : List Char := item ++ ['[', ']']

/-- Texts with bars between them. -/
def alternatives (texts : List (List Char)) : List Char :=
  (texts.intersperse " | ".toList).flatten

/-- The distinct texts in order. -/
def arrangeTexts (texts : List (List Char)) : List (List Char) :=
  Text.sort (distinctOn id texts)

def inlineText : List (List Char) → List Char
  | [] => ['\x7b', '\x7d']
  | parts => "\x7b ".toList ++ (parts.intersperse "; ".toList).flatten ++ " \x7d".toList

/-- The body of a declaration: each field on a line of its own. -/
def bodyText (o : Options) : List (List Char) → List Char
  | [] => ['\x7b', '\x7d']
  | parts =>
      let line (p : List Char) := List.replicate o.indent ' ' ++ p ++ [';']
      "\x7b\n".toList ++ ((parts.map line).intersperse ['\n']).flatten ++ "\n\x7d".toList

def fieldText (o : Options) (name : String) (isOptional : Bool) (type : List Char) : List Char :=
  Name.printedKey o.quote.char name.toList ++ (if isOptional then ['?'] else []) ++ ": ".toList
    ++ type

/-- Notes a reference to a declaration and gives its name. -/
def refer (name : String) : Emit (List Char) := do
  modify fun e => { e with references := e.references ++ [name] }
  pure name.toList

/-- Gives the name of a structure that was declared before, or else writes it. -/
def named (identity : Key) (write : Emit (List Char)) : Emit (List Char) := do
  match (← get).registry.nameOf? identity with
  | some name => refer name
  | none => write

/-- Declares an object and lets `write` give the texts of its fields.  The references met there
are the dependencies of the declaration, also when the writing fails. -/
def extract (o : Options) (identity : Key) (suggested : String) (fields : List String)
    (write : Emit (List (List Char))) : Emit (List Char) :=
  fun (before : Emission) =>
    let name := before.registry.freeName suggested
    let declared := (before.registry.declare name identity).update name fun d => { d with fields }
    let (result, after) := write.run ⟨declared, []⟩
    let registry := after.registry.update name fun d =>
      { d with dependencies := after.references }
    match result with
    | .error fault => (.error fault, ⟨registry, before.references⟩)
    | .ok parts =>
        (.ok name.toList,
          ⟨registry.update name fun d => { d with body := bodyText o parts },
            before.references ++ [name]⟩)

mutual

/-- Writes a shape whose fields are in order. -/
def typeOf (o : Options) : Shape → String → Emit (List Char)
  | .null, _ => named Shape.null.identity (pure "null".toList)
  | .primitive kind l, _ =>
      named (Shape.primitive kind l).identity (pure (primitiveText o kind l))
  | .array (.union ms), suggested =>
      named (Shape.array (.union ms)).identity do
        let texts ← membersOf o false ms (suggested ++ "Item" ++ "Union" ++ toString ·) 0
        match texts with
        | [] => throw .emptyUnion
        | _ =>
            match arrangeTexts texts with
            | [t] => pure (arrayText t)
            | ts => pure (arrayText ('(' :: (alternatives ts ++ [')'])))
  | .array s, suggested =>
      named (Shape.array s).identity (arrayText <$> typeOf o s (suggested ++ "Item"))
  | .union ms, suggested =>
      named (Shape.union ms).identity do
        let texts ← membersOf o false ms (suggested ++ "Union" ++ toString ·) 0
        match texts with
        | [] => throw .emptyUnion
        | _ => pure (alternatives (arrangeTexts texts))
  | .object fs, suggested =>
      named (Shape.object fs).identity
        (if isInline o fs then inlineText <$> fieldsOf o fs
        else extract o (Shape.object fs).identity suggested (fs.map (·.name)) (fieldsOf o fs))
  | .hole, _ => throw .hole

/-- Writes the members of a union, which are named by their position; `dropNull` leaves out the
null ones. -/
def membersOf (o : Options) (dropNull : Bool) :
    List Shape → (Nat → String) → Nat → Emit (List (List Char))
  | [], _, _ => pure []
  | s :: rest, name, i =>
      if dropNull && s.isNull then membersOf o dropNull rest name i
      else do
        let t ← typeOf o s (name i)
        let ts ← membersOf o dropNull rest name (i + 1)
        pure (t :: ts)

/-- Writes fields.  Where null is written as optional, the union of a field loses its null. -/
def fieldsOf (o : Options) : List (Field Shape) → Emit (List (List Char))
  | [] => pure []
  | ⟨name, s, isOptional⟩ :: rest => do
      let suggested := suggestedName o name
      let text ←
        match s with
        | .union ms =>
            if o.nullAsOptional && ms.any Shape.isNull then do
              let others := ms.filter fun m => !m.isNull
              let type ←
                if others.length = 1 then
                  alternatives <$> membersOf o true ms (fun _ => suggested) 0
                else
                  named (Shape.union others).identity do
                    let texts ← membersOf o true ms (suggested ++ "Union" ++ toString ·) 0
                    match texts with
                    | [] => throw .emptyUnion
                    | _ => pure (alternatives (arrangeTexts texts))
              pure (fieldText o name true type)
            else do
              let type ← typeOf o (.union ms) suggested
              pure (fieldText o name isOptional type)
        | s => do
            let type ← typeOf o s suggested
            pure (fieldText o name isOptional type)
      let texts ← fieldsOf o rest
      pure (text :: texts)

end

/-- Writes a shape into a registry: the expression and the names it refers to, and the registry
after it in any case. -/
def write (o : Options) (registry : Registry) (s : Shape) (suggested : String) :
    Except ShapeFault (List Char × List String) × Registry :=
  if s.isWhole then
    let (result, after) := (typeOf o s.sorted suggested).run ⟨registry, []⟩
    (result.map (·, after.references), after.registry)
  else (.error .hole, registry)

/-- Writes a shape under a root name into a fresh registry.  A root that is not declared itself
keeps others from taking its name. -/
def emit (o : Options) (s : Shape) (rootName : String) :
    Except ShapeFault (List Char × Registry) :=
  let start : Registry := if declares o s then {} else Registry.reserve {} rootName
  let (result, registry) := write o start s rootName
  result.map fun r => (r.1, registry)

end Emission

end TypeSketch
