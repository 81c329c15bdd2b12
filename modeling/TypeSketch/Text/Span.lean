/-!
# Spans of code points

Character classes are given as lists of spans of code points, with both ends in the class.
-/

namespace TypeSketch.Text

/-- All code points from the first to the second component. -/
abbrev Span := Nat × Nat

def inSpans (spans : List Span) (c : Char) : Bool :=
  spans.any fun s => s.1 ≤ c.toNat && c.toNat ≤ s.2

/-- Every `step`th code point from `first` to `last`. -/
structure Stride where
  first : Nat
  last : Nat
  step : Nat

def Stride.has (s : Stride) (c : Char) : Bool :=
  s.first ≤ c.toNat && c.toNat ≤ s.last && (c.toNat - s.first) % s.step == 0

end TypeSketch.Text
