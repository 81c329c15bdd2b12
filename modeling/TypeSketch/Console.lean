/-!
# Consoles

What a run prints goes through a library, which is a parameter here: it deals with markup, colours
and tables.
-/

namespace TypeSketch

structure Column where
  title : List Char
  style : List Char

/-- A table as it is given to the library. -/
structure Table where
  title : List Char
  columns : List Column
  /-- The cells of each row, from left to right. -/
  rows : List (List (List Char))

/-- A stream that is printed to, with what comes of each thing that is printed. -/
structure Console where
  isTerminal : Bool
  /-- A line in which tags set the style of what follows. -/
  markup : List Char → List Char
  /-- A text as it is. -/
  plain : List Char → List Char
  /-- A text in the colours of its language. -/
  highlighted : List Char → List Char
  table : Table → List Char

end TypeSketch
