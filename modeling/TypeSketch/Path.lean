/-!
# Paths and what they lead to

A path is kept without its empty parts and without the parts that are one point.  A workspace is
all that a run can read: the files and directories around it, and the standard input.
-/

namespace TypeSketch

structure Path where
  /-- The slashes that a path from the root starts with. -/
  root : String := ""
  parts : List String
deriving DecidableEq

namespace Path

/-- The stretches of a text between its slashes. -/
def split : List Char → List (List Char)
  | [] => [[]]
  | c :: rest =>
      if c = '/' then [] :: split rest
      else
        match split rest with
        | [] => [[c]]
        | part :: parts => (c :: part) :: parts

/-- The path that a text spells.  Exactly two slashes in front are a root of their own. -/
def ofText (s : String) : Path :=
  let slashes := (s.toList.takeWhile (· = '/')).length
  { root := if slashes = 0 then "" else if slashes = 2 then "//" else "/"
    parts := ((split s.toList).filter fun part => part ≠ [] ∧ part ≠ ['.']).map String.ofList }

def text (p : Path) : String :=
  if p.root = "" ∧ p.parts = [] then "." else p.root ++ "/".intercalate p.parts

/-- The directory that holds what the path leads to. -/
def parent (p : Path) : Path :=
  { p with parts := p.parts.dropLast }

end Path

/-- A file with its contents, or a directory. -/
inductive Entry
  | file (octets : List UInt8)
  | directory

structure Workspace where
  entries : List (Path × Entry) := []
  /-- The standard input. -/
  input : List UInt8 := []

namespace Workspace

/-- What stands at a path whose steps upwards, if any, come first.  A directory is also what has an
entry below it, and so is everything above the workspace. -/
def entryAt? (w : Workspace) (p : Path) : Option Entry :=
  match w.entries.lookup p with
  | some e => some e
  | none =>
      if p.parts.all (· = "..") ∨
          w.entries.any fun e => e.1.root = p.root ∧ p.parts.isPrefixOf e.1.parts then
        some .directory
      else none

def isDirectory (w : Workspace) (p : Path) : Bool :=
  match w.entryAt? p with
  | some .directory => true
  | _ => false

/-- The path with its steps upwards taken, if every step leads through a directory.  Steps out of
the workspace stay in front; there is nothing above a root. -/
def walk (w : Workspace) (here : Path) : List String → Option Path
  | [] => some here
  | part :: rest =>
      if part = ".." then
        if !here.parts.all (· = "..") then w.walk here.parent rest
        else if here.root = "" then w.walk { here with parts := here.parts ++ [part] } rest
        else w.walk here rest
      else
        let next := { here with parts := here.parts ++ [part] }
        if rest = [] ∨ w.isDirectory next then w.walk next rest else none

/-- What a path leads to. -/
def entry? (w : Workspace) (p : Path) : Option Entry :=
  match w.entries.lookup p with
  | some e => some e
  | none => (w.walk { root := p.root, parts := [] } p.parts).bind w.entryAt?

end Workspace

end TypeSketch
