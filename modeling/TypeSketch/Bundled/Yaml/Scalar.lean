import TypeSketch.Setting
import TypeSketch.Text.Digits

/-!
# The values of plain scalars

A plain scalar is null, a truth value, an integer or a decimal if it is spelled like one, and else
its own text.  Underscores between digits count for nothing, a leading zero makes an octal number,
and colons separate the digits of a number to the base sixty.
-/

namespace TypeSketch.Bundled.Yaml

def nullWords : List String := ["", "~", "null", "Null", "NULL"]

def trueWords : List String :=
  ["yes", "Yes", "YES", "true", "True", "TRUE", "on", "On", "ON"]

def falseWords : List String :=
  ["no", "No", "NO", "false", "False", "FALSE", "off", "Off", "OFF"]

def infinityWords : List String := [".inf", ".Inf", ".INF"]

def nanWords : List String := [".nan", ".NaN", ".NAN"]

/-- The sign of a number, whether it is written, and the rest. -/
def signOf : List Char → Bool × Bool × List Char
  | '-' :: rest => (true, true, rest)
  | '+' :: rest => (false, true, rest)
  | s => (false, false, s)

def isDigitOrGap (c : Char) : Bool := c.isDigit || c = '_'

/-- The digits without the underscores. -/
def digitsOf (s : List Char) : List Char := s.filter (· ≠ '_')

/-- The number that digits below the base spell, underscores aside; at least one is needed. -/
def natInBase? (base : Nat) (s : List Char) : Option Nat :=
  if digitsOf s = [] then none
  else (digitsOf s).foldlM (fun n c =>
    (Text.hexDigit? c).bind fun d => if d < base then some (n * base + d) else none) 0

/-- A part of a number to the base sixty, behind a colon. -/
def sixtieth? : List Char → Option Nat
  | [c] => if c.isDigit then some (Text.natOfDigits [c]) else none
  | [c, d] => if '0' ≤ c ∧ c ≤ '5' ∧ d.isDigit then some (Text.natOfDigits [c, d]) else none
  | _ => none

/-- The stretches of a text between its colons. -/
def splitColons : List Char → List (List Char)
  | [] => [[]]
  | c :: rest =>
      if c = ':' then [] :: splitColons rest
      else
        match splitColons rest with
        | [] => [[c]]
        | part :: parts => (c :: part) :: parts

/-- A number to the base sixty with at least one colon. -/
def sexagesimal? (s : List Char) : Option Nat :=
  match splitColons s with
  | first :: second :: rest => do
      if !first.all isDigitOrGap then none
      let start ← natInBase? 10 first
      (second :: rest).foldlM (fun n part => (sixtieth? part).map (n * 60 + ·)) start
  | _ => none

/-- The size of an integer. -/
def size? : List Char → Option Nat
  | ['0'] => some 0
  | '0' :: 'b' :: digits => natInBase? 2 digits
  | '0' :: 'x' :: digits => natInBase? 16 digits
  | '0' :: digits => natInBase? 8 ('0' :: digits)
  | c :: rest =>
      if !c.isDigit then none
      else if rest.all isDigitOrGap then natInBase? 10 (c :: rest)
      else sexagesimal? (c :: rest)
  | [] => none

def int? (s : List Char) : Option Int :=
  let (negative, _, body) := signOf s
  (size? body).map fun n => if negative then -(n : Int) else n

/-- The exponent of a decimal, which must have a sign if it is there. -/
def exponent? : List Char → Option Int
  | [] => some 0
  | c :: rest =>
      let (negative, isSigned, digits) := signOf rest
      if (c = 'e' ∨ c = 'E') ∧ isSigned ∧ digits ≠ [] ∧ digits.all Char.isDigit then
        let n : Int := Text.natOfDigits digits
        some (if negative then -n else n)
      else none

/-- A decimal has a point, and a digit in front of it or right behind it. -/
def decimal? (s : List Char) : Option Binary64 :=
  let (negative, isSigned, body) := signOf s
  let whole := body.takeWhile (· ≠ '.')
  match body.dropWhile (· ≠ '.') with
  | [] => none
  | _ :: rest => do
      let fraction := rest.takeWhile isDigitOrGap
      let decimals := digitsOf fraction
      let make (size : Nat) (exponent : Int) : Binary64 :=
        .ofDecimal negative (size * Nat.pow 10 decimals.length + Text.natOfDigits decimals)
          (exponent - decimals.length)
      if whole = [] then
        if isSigned ∨ !(fraction.head?.any Char.isDigit) then none
        else (exponent? (rest.dropWhile isDigitOrGap)).map (make 0)
      else if !(whole.head?.any Char.isDigit) then none
      else if whole.all isDigitOrGap then
        let size ← natInBase? 10 whole
        (exponent? (rest.dropWhile isDigitOrGap)).map (make size)
      else if rest.all isDigitOrGap then
        (sexagesimal? whole).map fun size => make size 0
      else none

def float? (s : List Char) : Option Binary64 :=
  let (negative, _, body) := signOf s
  if String.ofList body ∈ infinityWords then some (.infinite negative)
  else if String.ofList s ∈ nanWords then some .nan
  else decimal? s

/-- The value of a plain scalar.  The merge and the default sign have none. -/
def plainValue? (s : List Char) : Option Setting :=
  let word := String.ofList s
  if word ∈ nullWords then some .null
  else if word ∈ trueWords then some (.scalar (.bool true))
  else if word ∈ falseWords then some (.scalar (.bool false))
  else if word = "=" ∨ word = "<<" then none
  else
    match int? s, float? s with
    | some n, _ => some (.scalar (.int n))
    | none, some x => some (.scalar (.float x))
    | none, none => some (.scalar (.str word))

end TypeSketch.Bundled.Yaml
