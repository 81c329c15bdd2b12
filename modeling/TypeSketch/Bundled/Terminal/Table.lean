import TypeSketch.Bundled.Terminal.Cell
import TypeSketch.Console

/-!
# Tables

A table has a title over its middle, a heavy frame around its head and a light one around its rows.
Each column is as wide as its widest cell and one space on each side; a cell may have several
lines.
-/

namespace TypeSketch.Bundled.Terminal

/-- The lines of a cell as they are shown. -/
def cellLines (cell : List Char) : List (List Char) :=
  lines (printed cell)

/-- The cells that the widest line of a text takes. -/
def cellSize (cell : List Char) : Nat :=
  ((cellLines cell).map width).foldl max 0

/-- The widths of the columns, without the spaces. -/
def columnSizes (t : Table) : List Nat :=
  t.rows.foldl (fun sizes row => List.zipWith max sizes (row.map cellSize))
    (t.columns.map fun c => cellSize c.title)

/-- The text with spaces up to a width. -/
def padRight (size : Nat) (s : List Char) : List Char :=
  s ++ List.replicate (size - width s) ' '

/-- A line of a frame. -/
def ruler (left fill cross right : Char) (sizes : List Nat) : List Char :=
  let stretches := sizes.map fun size => List.replicate (size + 2) fill
  left :: ((stretches.intersperse [cross]).flatten ++ [right, '\n'])

/-- The lines of a row between the bars of its frame. -/
def rowLines (bar : Char) (sizes : List Nat) (row : List (List Char)) : List Char :=
  let cells := row.map cellLines
  let height := (cells.map List.length).foldl max 1
  (List.range height).flatMap fun i =>
    let parts := List.zipWith (fun size cell =>
      ' ' :: (padRight size (cell.getD i []) ++ [' '])) sizes cells
    bar :: ((parts.intersperse [bar]).flatten ++ [bar, '\n'])

/-- The title over the middle of a line; the odd space is behind it. -/
def titleLine (size : Nat) (title : List Char) : List Char :=
  padRight size (List.replicate ((size - width title) / 2) ' ' ++ title) ++ ['\n']

def renderTable (t : Table) : List Char :=
  let sizes := columnSizes t
  let size := sizes.foldl (fun n size => n + size + 3) 1
  titleLine size t.title ++
    ruler '┏' '━' '┳' '┓' sizes ++
    rowLines '┃' sizes (t.columns.map (·.title)) ++
    ruler '┡' '━' '╇' '┩' sizes ++
    t.rows.flatMap (rowLines '│' sizes) ++
    ruler '└' '─' '┴' '┘' sizes

end TypeSketch.Bundled.Terminal
