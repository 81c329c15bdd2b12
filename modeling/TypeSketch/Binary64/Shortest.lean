import TypeSketch.Binary64.Basic

/-!
# The shortest decimal of a binary64 number

The text of a number has the fewest digits that read back as the same number, and of two such
decimals it is the nearer.  On the grid of `n`-digit decimals only the two neighbours of the value
have to be tried: if any point of the grid reads back, one of them does.
-/

namespace TypeSketch.Binary64

/-- A decimal `digits * 10 ^ exponent`. -/
structure Decimal where
  digits : Nat
  exponent : Int
deriving DecidableEq

/-- The exponent of the leading decimal digit of `units` least positive values. -/
def leadingExponent (units : Nat) : Int :=
  digitCount (units * Nat.pow 10 340 / scale) - 341

/-- Whether the decimal rounds to `units` least positive values. -/
def ReadsBack (units : Nat) (d : Decimal) : Prop :=
  ofDecimal false d.digits d.exponent = ofUnits false units

instance (units : Nat) (d : Decimal) : Decidable (ReadsBack units d) :=
  inferInstanceAs (Decidable (_ = _))

/-- The decimal with `places` digits that reads back as `units`, if there is one. -/
def onGrid (units places : Nat) : Option Decimal :=
  let exponent := leadingExponent units - places + 1
  let num := if 0 ≤ exponent then units else units * Nat.pow 10 (-exponent).toNat
  let den := if 0 ≤ exponent then scale * Nat.pow 10 exponent.toNat else scale
  let below : Decimal := ⟨num / den, exponent⟩
  let above : Decimal := ⟨num / den + 1, exponent⟩
  if ReadsBack units below then
    if ReadsBack units above ∧ roundDiv num den ≠ below.digits then some above else some below
  else if ReadsBack units above then some above
  else none

/-- Seventeen digits always suffice; the exact value stands at the end of the search. -/
def shortest (units : Nat) : Decimal :=
  ((List.range' 1 17).findSome? (onGrid units)).getD ⟨units * Nat.pow 5 1074, -1074⟩

/-- The digits of a decimal without the zeros at their end. -/
def significant (d : Decimal) : List Char :=
  ((Nat.toDigits 10 d.digits).reverse.dropWhile (· = '0')).reverse

/-- The sign and at least two digits. -/
def exponentText (e : Int) : List Char :=
  let digits := Nat.toDigits 10 e.natAbs
  (if e < 0 then '-' else '+') :: (List.replicate (2 - digits.length) '0' ++ digits)

/-- A decimal is written positionally while its leading digit stands at 10⁻⁴ to 10¹⁵, with at
least one digit on each side of the point, and with an exponent otherwise. -/
def decimalText (d : Decimal) : List Char :=
  let digits := significant d
  let e : Int := digitCount d.digits + d.exponent - 1
  if -4 ≤ e ∧ e < 0 then
    '0' :: '.' :: (List.replicate (-e - 1).toNat '0' ++ digits)
  else if 0 ≤ e ∧ e < 16 then
    let whole := e.toNat + 1
    if digits.length ≤ whole then
      digits ++ List.replicate (whole - digits.length) '0' ++ ['.', '0']
    else
      digits.take whole ++ '.' :: digits.drop whole
  else
    match digits with
    | [] => []
    | d :: [] => d :: 'e' :: exponentText e
    | d :: rest => d :: '.' :: (rest ++ 'e' :: exponentText e)

def signText (negative : Bool) : List Char :=
  if negative then ['-'] else []

/-- The text of a number, with the words `inf` and `nan` for what has no digits. -/
def text : Binary64 → List Char
  | .finite negative units _ =>
      signText negative ++ (if units = 0 then ['0', '.', '0'] else decimalText (shortest units))
  | .infinite negative => signText negative ++ ['i', 'n', 'f']
  | .nan => ['n', 'a', 'n']

end TypeSketch.Binary64
