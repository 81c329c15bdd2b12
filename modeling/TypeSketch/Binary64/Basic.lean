/-!
# Binary64 numbers

A finite value is a sign and a natural multiple of the least positive value, 2⁻¹⁰⁷⁴.  The
multiples in use are those with at most 53 significant bits below the overflow limit, so equal
values are equal data, apart from the two zeros.  `ofDecimal` rounds a decimal to the nearest
value, and to the even neighbour at a tie.
-/

namespace TypeSketch

namespace Binary64

/-- The least positive value is `1 / scale`. -/
def scale : Nat := Nat.pow 2 1074

/-- The distance between the values around `units`. -/
def spacing (units : Nat) : Nat := Nat.pow 2 (units.log2 - 52)

/-- Multiples of the least positive value from here on have no finite value. -/
def limit : Nat := Nat.pow 2 2098

/-- The multiples of the least positive value that are values themselves. -/
def Fits (units : Nat) : Prop :=
  units % spacing units = 0 ∧ units < limit

instance (units : Nat) : Decidable (Fits units) :=
  inferInstanceAs (Decidable (_ ∧ _))

end Binary64

/-- A double-precision number: finite, infinite or not a number. -/
inductive Binary64
  | finite (negative : Bool) (units : Nat) (fits : Binary64.Fits units)
  | infinite (negative : Bool)
  | nan
deriving DecidableEq

namespace Binary64

theorem twoPower_pos (n : Nat) : 0 < Nat.pow 2 n :=
  Nat.pow_pos Nat.two_pos

theorem limit_pos : 0 < limit := by
  unfold limit
  apply twoPower_pos

theorem fits_zero : Fits 0 :=
  ⟨Nat.zero_mod _, limit_pos⟩

def zero (negative : Bool) : Binary64 :=
  .finite negative 0 fits_zero

/-- The quotient to the nearest natural number, and to the even one at a tie. -/
def roundDiv (num den : Nat) : Nat :=
  let q := num / den
  let r := num % den
  if 2 * r < den ∨ (2 * r = den ∧ q % 2 = 0) then q else q + 1

/-- The multiple of the least positive value that lies nearest to `num / den` such multiples. -/
def roundUnits (num den : Nat) : Nat :=
  let step := spacing (num / den)
  roundDiv num (den * step) * step

def ofUnits (negative : Bool) (units : Nat) : Binary64 :=
  if h : Fits units then .finite negative units h else .infinite negative

/-- The number of decimal digits of `n`. -/
def digitCount (n : Nat) : Nat := (Nat.toDigits 10 n).length

/-- The value nearest to `digits * 10 ^ exponent`.  Decimals far beyond either end of the range
are settled by their number of digits alone. -/
def ofDecimal (negative : Bool) (digits : Nat) (exponent : Int) : Binary64 :=
  let magnitude := digitCount digits + exponent
  if digits = 0 ∨ magnitude < -330 then zero negative
  else if 310 < magnitude then .infinite negative
  else if 0 ≤ exponent then
    ofUnits negative (roundUnits (digits * Nat.pow 10 exponent.toNat * scale) 1)
  else
    ofUnits negative (roundUnits (digits * scale) (Nat.pow 10 (-exponent).toNat))

/-- The integer that a finite value without fraction equals. -/
def toInt? : Binary64 → Option Int
  | .finite negative units _ =>
      if units % scale = 0 then
        some (if negative then -(units / scale : Nat) else (units / scale : Nat))
      else none
  | _ => none

end Binary64

end TypeSketch
