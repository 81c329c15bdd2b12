import TypeSketch.Declaration.Emission

/-!
# Documents

The emitted text: the root type first, then every other declaration, with a blank line between
two of them.
-/

namespace TypeSketch.Document

/-- The declarations with blank lines between them. -/
def blocks (texts : List (List Char)) : List Char :=
  (texts.intersperse ['\n', '\n']).flatten

/-- The document of a root type and a registry.  The root is the declaration of its name, or else
an alias of its expression. -/
def render (rootName : String) (rootText : List Char) (registry : Registry)
    (order : DeclarationOrder) : List Char :=
  let root :=
    match registry.declaration? rootName with
    | some d => d.render
    | none => Declaration.line rootName.toList rootText
  let others := (Declaration.inOrder order registry.declarations).filter fun d => d.name ≠ rootName
  blocks (root :: others.map Declaration.render)

/-- The document of a shape. -/
def ofShape (o : Options) (s : Shape) : Except ShapeFault (List Char) := do
  let rootName := String.ofList (Name.rootName o.rootName.toList)
  let (text, registry) ← Emission.emit o s rootName
  pure (render rootName text registry o.order)

/-- The document of a sample. -/
def ofSample (o : Options) (v : Sample) : Except ShapeFault (List Char) := do
  let s ← v.shape o.limits
  ofShape o s

end TypeSketch.Document
