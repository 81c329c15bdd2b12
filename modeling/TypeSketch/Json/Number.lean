import TypeSketch.Literal
import TypeSketch.Text.Digits

/-!
# Numbers in JSON

A number is read to its longest extent: a point or an exponent mark without digits behind it does
not belong to it.
-/

namespace TypeSketch.Json

/-- The digits before the point: a zero alone, or digits that do not start with zero. -/
def scanWhole : List Char → Option (List Char × List Char)
  | [] => none
  | c :: rest =>
      if c = '0' then some (['0'], rest)
      else if c.isDigit then some (Text.spanDigits (c :: rest))
      else none

/-- A point and the digits behind it. -/
def scanFraction (s : List Char) : Option (List Char × List Char) :=
  match s with
  | '.' :: rest =>
      let (digits, after) := Text.spanDigits rest
      if digits = [] then none else some (digits, after)
  | _ => none

/-- Whether a sign is negative, and what follows the sign. -/
def scanSign : List Char → Bool × List Char
  | '-' :: rest => (true, rest)
  | '+' :: rest => (false, rest)
  | s => (false, s)

/-- The exponent of a number. -/
def scanExponent (s : List Char) : Option (Int × List Char) :=
  match s with
  | c :: rest =>
      if c = 'e' ∨ c = 'E' then
        let (negative, rest) := scanSign rest
        let (digits, after) := Text.spanDigits rest
        if digits = [] then none
        else
          let n : Int := Text.natOfDigits digits
          some (if negative then -n else n, after)
      else none
  | [] => none

/-- A written number: the digits in front of the point, those behind it, and the exponent. -/
structure Numeral where
  negative : Bool
  whole : List Char
  fraction : Option (List Char)
  exponent : Option Int

namespace Numeral

/-- The number: an integer unless there is a fraction or an exponent. -/
def literal (n : Numeral) : Literal :=
  match n.fraction, n.exponent with
  | none, none =>
      let size : Int := Text.natOfDigits n.whole
      .int (if n.negative then -size else size)
  | _, _ =>
      let fraction := n.fraction.getD []
      .float (.ofDecimal n.negative (Text.natOfDigits (n.whole ++ fraction))
        (n.exponent.getD 0 - fraction.length))

end Numeral

/-- The longest number at the start of the text, and what follows it. -/
def scanNumeral (s : List Char) : Option (Numeral × List Char) :=
  let negative := s.head? == some '-'
  match scanWhole (if negative then s.drop 1 else s) with
  | none => none
  | some (whole, rest) =>
      let fraction := scanFraction rest
      let rest := (fraction.map (·.2)).getD rest
      let exponent := scanExponent rest
      let rest := (exponent.map (·.2)).getD rest
      some (⟨negative, whole, fraction.map (·.1), exponent.map (·.1)⟩, rest)

theorem length_spanDigits_le (s : List Char) : (Text.spanDigits s).2.length ≤ s.length :=
  (List.dropWhile_sublist _).length_le

theorem length_scanWhole {s whole rest : List Char} (h : scanWhole s = some (whole, rest)) :
    rest.length < s.length := by
  cases s with
  | nil => cases h
  | cons c t =>
      simp only [scanWhole] at h
      split at h
      · cases h; simp
      · split at h
        next hc =>
          simp only [Text.spanDigits, List.takeWhile_cons, List.dropWhile_cons, hc, if_true,
            Option.some.injEq, Prod.mk.injEq] at h
          have := (List.dropWhile_sublist (l := t) Char.isDigit).length_le
          simp [← h.2]
          omega
        next => cases h

theorem length_scanFraction_le (s : List Char) :
    (((scanFraction s).map (·.2)).getD s).length ≤ s.length := by
  unfold scanFraction
  split
  next rest =>
    have := length_spanDigits_le rest
    dsimp only
    split <;> simp
    omega
  next => simp

theorem length_scanSign_le (s : List Char) : (scanSign s).2.length ≤ s.length := by
  unfold scanSign
  split <;> simp

theorem length_scanExponent_le (s : List Char) :
    (((scanExponent s).map (·.2)).getD s).length ≤ s.length := by
  unfold scanExponent
  split
  next c rest =>
    split
    · have h₁ := length_scanSign_le rest
      have h₂ := length_spanDigits_le (scanSign rest).2
      dsimp only
      split <;> simp
      omega
    · simp
  next => simp

theorem length_scanNumeral {s rest : List Char} {n : Numeral} (h : scanNumeral s = some (n, rest)) :
    rest.length < s.length := by
  simp only [scanNumeral] at h
  split at h
  next => cases h
  next whole after hw =>
    have h₁ := length_scanWhole hw
    simp only [Option.some.injEq, Prod.mk.injEq] at h
    have h₂ := length_scanFraction_le after
    have h₃ := length_scanExponent_le (((scanFraction after).map (·.2)).getD after)
    rw [h.2] at h₃
    have h₄ : (if s.head? == some '-' then s.drop 1 else s).length ≤ s.length := by
      split <;> simp
    omega

end TypeSketch.Json
