import TypeSketch.Binary64.Shortest
import TypeSketch.Text.Quoted

/-!
# Literals

A literal is a single truth value, number or string.  Numbers have one type in JSON, so as the
literal of a number `3` and `3.0` are the same token; `canonical` picks the representative by
which literals of a kind are compared.
-/

namespace TypeSketch

/-- The kinds of scalar data, in the order in which they are listed side by side. -/
inductive Kind
  | string
  | number
  | boolean
deriving DecidableEq

namespace Kind

def all : List Kind := [.string, .number, .boolean]

def name : Kind → String
  | .string => "string"
  | .number => "number"
  | .boolean => "boolean"

def ofName? (name : String) : Option Kind :=
  all.find? (·.name == name)

/-- What is said of a name that no kind has. -/
def unknownMessage (name : String) : String :=
  let shown := String.ofList (Text.shown name.toList)
  s!"Unknown primitive kind: {shown}"

end Kind

inductive Literal
  | bool (value : Bool)
  | int (value : Int)
  | float (value : Binary64)
  | str (value : String)
deriving DecidableEq

namespace Literal

def kind : Literal → Kind
  | .bool _ => .boolean
  | .int _ | .float _ => .number
  | .str _ => .string

/-- The literal of a shape of the given kind as it is compared and written: a number without
fraction is an integer. -/
def token (kind : Kind) : Literal → Literal
  | .float x =>
      match kind, x.toInt? with
      | .number, some n => .int n
      | _, _ => .float x
  | l => l

/-- The integer that a literal equals, where truth values count as `0` and `1`. -/
def toInt? : Literal → Option Int
  | .bool b => some (if b then 1 else 0)
  | .int n => some n
  | .float x => x.toInt?
  | .str _ => none

/-- The representative of the literals equal to `l`: a truth value where the kind is boolean and
there is one, else an integer where there is one. -/
def canonical (kind : Kind) (l : Literal) : Literal :=
  match l.toInt? with
  | none => l
  | some n =>
      if kind = .boolean ∧ n = 0 then .bool false
      else if kind = .boolean ∧ n = 1 then .bool true
      else .int n

/-- The literal as plain text. -/
def text : Literal → List Char
  | .bool b => if b then ['T', 'r', 'u', 'e'] else ['F', 'a', 'l', 's', 'e']
  | .int n => (toString n).toList
  | .float x => x.text
  | .str s => s.toList

/-- The literal as messages show it: strings have quotes. -/
def shown : Literal → List Char
  | .str s => Text.shown s.toList
  | l => l.text

/-- The literal in JSON, where the numbers without digits are words. -/
def json : Literal → List Char
  | .bool b => if b then ['t', 'r', 'u', 'e'] else ['f', 'a', 'l', 's', 'e']
  | .int n => (toString n).toList
  | .float .nan => ['N', 'a', 'N']
  | .float (.infinite negative) =>
      Binary64.signText negative ++ ['I', 'n', 'f', 'i', 'n', 'i', 't', 'y']
  | .float x => x.text
  | .str s => Text.jsonString s.toList

theorem canonical_of_kind_ne_number {l : Literal} (h : l.kind ≠ .number) :
    l.canonical l.kind = l := by
  cases l with
  | bool b => cases b <;> rfl
  | int n => exact absurd rfl h
  | float x => exact absurd rfl h
  | str s => rfl

end Literal

end TypeSketch
