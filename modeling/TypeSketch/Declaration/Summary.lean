import TypeSketch.Console
import TypeSketch.Declaration.Document

/-!
# Summaries

A summary lists the types of a document: each declaration with its field names and the types it
refers to, and in front of them the root, unless it is a declaration itself.
-/

namespace TypeSketch

/-- A line of a summary. -/
inductive SummaryRow
  | declared (name : String) (fields references : List String)
  /-- A root that is an alias of an expression. -/
  | alias (name : String) (text : List Char)
deriving DecidableEq

namespace SummaryRow

def ofDeclaration (d : Declaration) : SummaryRow :=
  .declared d.name d.fields (distinctOn id d.dependencies)

/-- The name of the type. -/
def name : SummaryRow → String
  | .declared name _ _ => name
  | .alias name _ => name

/-- Names with commas between them. -/
def commaList (names : List String) : List Char :=
  ((names.map String.toList).intersperse [',', ' ']).flatten

/-- The text of the row's three columns; a dash stands for no fields. -/
def cells : SummaryRow → List (List Char)
  | .declared name fields references =>
      let fields := commaList fields
      [name.toList, if fields = [] then ['-'] else fields, commaList references]
  | .alias name text => [name.toList, text, []]

end SummaryRow

namespace Summary

/-- The rows for a root type and a registry. -/
def rows (rootName : String) (rootText : List Char) (registry : Registry)
    (order : DeclarationOrder) : List SummaryRow :=
  let root := if (registry.declaration? rootName).isNone then [.alias rootName rootText] else []
  root ++ (Declaration.inOrder order registry.declarations).map .ofDeclaration

/-- The rows for a sample. -/
def ofSample (o : Options) (v : Sample) : Except ShapeFault (List SummaryRow) := do
  let s ← v.shape o.limits
  let rootName := String.ofList (Name.rootName o.rootName.toList)
  let (text, registry) ← Emission.emit o s rootName
  pure (rows rootName text registry o.order)

/-- The rows as a table. -/
def table (rows : List SummaryRow) : Table where
  title := "Inferred Types".toList
  columns :=
    [⟨"Type".toList, "cyan".toList⟩, ⟨"Fields".toList, "magenta".toList⟩,
     ⟨"References".toList, "green".toList⟩]
  rows := rows.map SummaryRow.cells

end Summary

end TypeSketch
