import TypeSketch.Name.Unique
import TypeSketch.Shape.Key

/-!
# Declarations and their registry

A registry holds the declarations made so far, the names in use, and the name under which each
structure was declared last.  Names are never given twice.
-/

namespace TypeSketch

/-- A named type. -/
structure Declaration where
  name : String
  body : List Char := []
  /-- The field names of the object, in order. -/
  fields : List String := []
  /-- The names of the declarations that the body refers to, once for each reference. -/
  dependencies : List String := []
deriving DecidableEq

namespace Declaration

/-- A declaration of a name, as it is printed. -/
def line (name : List Char) (body : List Char) : List Char :=
  "type ".toList ++ name ++ " = ".toList ++ body ++ [';']

def render (d : Declaration) : List Char :=
  line d.name.toList d.body

end Declaration

structure Registry where
  /-- The names of structures, the one given last in front. -/
  names : List (Key × String) := []
  /-- The declarations in the order in which they were made. -/
  declarations : List Declaration := []
  /-- All names that are taken. -/
  used : List String := []

namespace Registry

def nameOf? (r : Registry) (identity : Key) : Option String :=
  r.names.lookup identity

def declaration? (r : Registry) (name : String) : Option Declaration :=
  r.declarations.find? (·.name == name)

/-- Takes a name without declaring it. -/
def reserve (r : Registry) (name : String) : Registry :=
  if r.used.contains name then r else { r with used := name :: r.used }

/-- The name that a declaration gets when `suggested` is asked for. -/
def freeName (r : Registry) (suggested : String) : String :=
  Name.unique suggested r.used

/-- Declares a structure under a free name. -/
def declare (r : Registry) (name : String) (identity : Key) : Registry :=
  { names := (identity, name) :: r.names.filter fun e => e.1 ≠ identity
    declarations := r.declarations ++ [{ name }]
    used := name :: r.used }

/-- Changes the declaration of a name. -/
def update (r : Registry) (name : String) (f : Declaration → Declaration) : Registry :=
  { r with declarations := r.declarations.map fun d => if d.name = name then f d else d }

/-- The name under which a shape was declared last. -/
def lookup (r : Registry) (s : Shape) : Except ShapeFault (Option String) :=
  if s.isWhole then .ok (r.nameOf? s.identity) else .error .hole

/-- Declares a shape under a free name and gives the name.  A shape with a hole takes the name all
the same, but is not declared. -/
def allocate (r : Registry) (suggested : String) (s : Shape) :
    Except ShapeFault String × Registry :=
  let name := r.freeName suggested
  if s.isWhole then (.ok name, r.declare name s.identity)
  else (.error .hole, r.reserve name)

end Registry

end TypeSketch
