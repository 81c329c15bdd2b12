/-!
# UTF-8

`decodeFrom` reads octets up to the first fault.  A character is refused at the first octet that no
character can have at its place, so overlong forms, surrogates and numbers beyond the last code
point are faults.
-/

namespace TypeSketch.Text.Utf8

/-- What can be wrong with a sequence of octets. -/
inductive Fault
  /-- An octet that begins no character. -/
  | start
  /-- An octet that cannot go on with its character. -/
  | continuation
  /-- The end in the middle of a character. -/
  | truncated
deriving DecidableEq

def Fault.message : Fault → String
  | .start => "invalid start byte"
  | .continuation => "invalid continuation byte"
  | .truncated => "unexpected end of data"

/-- A character of which some octets have been read. -/
structure Partial where
  /-- The number of octets to come. -/
  owed : Nat
  /-- The least value of the next octet. -/
  low : Nat
  /-- The greatest value of the next octet. -/
  high : Nat
  /-- The bits read so far. -/
  bits : Nat

/-- A character behind its first octet, if more octets belong to it. -/
def begin? (octet : Nat) : Option Partial :=
  if octet < 0xC2 then none
  else if octet < 0xE0 then some ⟨1, 0x80, 0xBF, octet - 0xC0⟩
  else if octet < 0xF0 then
    some ⟨2, if octet = 0xE0 then 0xA0 else 0x80, if octet = 0xED then 0x9F else 0xBF,
      octet - 0xE0⟩
  else if octet < 0xF5 then
    some ⟨3, if octet = 0xF0 then 0x90 else 0x80, if octet = 0xF4 then 0x8F else 0xBF,
      octet - 0xF0⟩
  else none

/-- The characters up to the first fault, and the fault. -/
def decodeFrom : Option Partial → List UInt8 → List Char × Option Fault
  | none, [] => ([], none)
  | some _, [] => ([], some .truncated)
  | none, octet :: rest =>
      if octet.toNat < 0x80 then
        let decoded := decodeFrom none rest
        (Char.ofNat octet.toNat :: decoded.1, decoded.2)
      else
        match begin? octet.toNat with
        | none => ([], some .start)
        | some p => decodeFrom (some p) rest
  | some p, octet :: rest =>
      if p.low ≤ octet.toNat ∧ octet.toNat ≤ p.high then
        let bits := p.bits * 64 + (octet.toNat - 0x80)
        if p.owed ≤ 1 then
          let decoded := decodeFrom none rest
          (Char.ofNat bits :: decoded.1, decoded.2)
        else decodeFrom (some ⟨p.owed - 1, 0x80, 0xBF, bits⟩) rest
      else ([], some .continuation)

def decode (octets : List UInt8) : Except Fault (List Char) :=
  match decodeFrom none octets with
  | (chars, none) => .ok chars
  | (_, some fault) => .error fault

/-- The octets without a byte order mark in front. -/
def dropMark : List UInt8 → List UInt8
  | 0xEF :: 0xBB :: 0xBF :: rest => rest
  | octets => octets

end TypeSketch.Text.Utf8
