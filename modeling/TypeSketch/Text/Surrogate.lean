/-!
# Surrogates

An escape may name one half of a surrogate pair.  Two halves in a row are the character they
encode.  A half that stands alone is no character; the 2048 last code points, all for private use
or never assigned, stand in for them.
-/

namespace TypeSketch.Text

def isHighSurrogate (code : Nat) : Bool := 0xD800 ≤ code && code ≤ 0xDBFF

def isLowSurrogate (code : Nat) : Bool := 0xDC00 ≤ code && code ≤ 0xDFFF

/-- The character that two halves encode. -/
def joinSurrogates (high low : Nat) : Char :=
  Char.ofNat (0x10000 + (high - 0xD800) * 0x400 + (low - 0xDC00))

/-- The character of an escape, or the stand-in of a lone half. -/
def charOfCode (code : Nat) : Char :=
  if isHighSurrogate code || isLowSurrogate code then Char.ofNat (0x10F800 + (code - 0xD800))
  else Char.ofNat code

end TypeSketch.Text
