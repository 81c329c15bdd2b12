import TypeSketch.Text.Blank

/-!
# Integers in text

An integer is written in the decimal digits of any script, with single underscores between them, a
sign in front and white space around.
-/

namespace TypeSketch.Text

/-- The zeros of all scripts; the other nine digits follow each of them. -/
def zeros : List Nat :=
  [0x30, 0x660, 0x6F0, 0x7C0, 0x966, 0x9E6, 0xA66, 0xAE6, 0xB66, 0xBE6, 0xC66, 0xCE6, 0xD66, 0xDE6,
   0xE50, 0xED0, 0xF20, 0x1040, 0x1090, 0x17E0, 0x1810, 0x1946, 0x19D0, 0x1A80, 0x1A90, 0x1B50,
   0x1BB0, 0x1C40, 0x1C50, 0xA620, 0xA8D0, 0xA900, 0xA9D0, 0xA9F0, 0xAA50, 0xABF0, 0xFF10, 0x104A0,
   0x10D30, 0x11066, 0x110F0, 0x11136, 0x111D0, 0x112F0, 0x11450, 0x114D0, 0x11650, 0x116C0,
   0x11730, 0x118E0, 0x11950, 0x11C50, 0x11D50, 0x11DA0, 0x16A60, 0x16AC0, 0x16B50, 0x1D7CE,
   0x1D7D8, 0x1D7E2, 0x1D7EC, 0x1D7F6, 0x1E140, 0x1E2F0, 0x1E950, 0x1FBF0]

/-- The value of a decimal digit. -/
def digit? (c : Char) : Option Nat :=
  zeros.findSome? fun first =>
    if first ≤ c.toNat ∧ c.toNat ≤ first + 9 then some (c.toNat - first) else none

/-- White space around an integer, to which the ASCII separators do not belong. -/
def isMargin (c : Char) : Bool :=
  isBlank c && !(0x1C ≤ c.toNat && c.toNat ≤ 0x1F)

/-- The number that the digits spell behind `n`.  An underscore stands behind a digit and in front
of one. -/
def readDigits (n : Nat) (afterDigit : Bool) : List Char → Option Nat
  | [] => if afterDigit then some n else none
  | c :: rest =>
      if c = '_' then if afterDigit then readDigits n false rest else none
      else
        match digit? c with
        | some d => readDigits (10 * n + d) true rest
        | none => none

/-- The integer that a text spells. -/
def readInt (s : List Char) : Option Int :=
  match ((s.dropWhile isMargin).reverse.dropWhile isMargin).reverse with
  | '-' :: digits => (readDigits 0 false digits).map fun n => -(n : Int)
  | '+' :: digits => (readDigits 0 false digits).map fun n => (n : Int)
  | digits => (readDigits 0 false digits).map fun n => (n : Int)

end TypeSketch.Text
