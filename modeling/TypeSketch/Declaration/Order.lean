import TypeSketch.Declaration.Registry
import TypeSketch.Options

/-!
# The order of declarations

In dependency order a declaration stands before those it refers to.  Each waits until all others
that refer to it have gone, and of those whose turn it is the one that was made first goes next.
On a cycle, and behind one, it is nobody's turn: these keep their order at the end.
-/

namespace TypeSketch.Declaration

/-- The names of the others that a declaration refers to, each of them once. -/
def targets (d : Declaration) : List String :=
  (distinctOn id d.dependencies).filter (· ≠ d.name)

/-- A declaration that waits for its turn. -/
structure Turn where
  /-- How many were made before it. -/
  place : Nat
  declaration : Declaration
  /-- The number of others that refer to it and have not gone. -/
  referrers : Nat := 0

/-- Changes the number of referrers, if the declaration has the name. -/
def Turn.recount (f : Nat → Nat) (name : String) (t : Turn) : Turn :=
  if t.declaration.name = name then { t with referrers := f t.referrers } else t

/-- The declarations with their referrers counted. -/
def turns (ds : List Declaration) : List Turn :=
  let uncounted := ds.zipIdx.map fun p => { declaration := p.1, place := p.2 }
  ds.foldl (fun ts d => d.targets.foldl (fun ts name => ts.map (.recount (· + 1) name)) ts) uncounted

/-- In the order in which they were made. -/
def inPlace (ts : List Turn) : List Turn :=
  ts.mergeSort fun t u => t.place ≤ u.place

/-- The declarations that have not gone. -/
structure Queue where
  /-- Those whose turn it is. -/
  ready : List Turn
  held : List Turn

namespace Queue

def ofTurns (ts : List Turn) : Queue where
  ready := inPlace (ts.filter (·.referrers = 0))
  held := ts.filter (·.referrers ≠ 0)

/-- A referrer of the declaration of this name has gone. -/
def release (q : Queue) (name : String) : Queue :=
  let held := q.held.map (.recount (· - 1) name)
  { ready := inPlace (q.ready ++ held.filter (·.referrers = 0))
    held := held.filter (·.referrers ≠ 0) }

def size (q : Queue) : Nat := q.ready.length + q.held.length

theorem size_release (q : Queue) (name : String) : (q.release name).size = q.size := by
  have hsplit := List.length_eq_countP_add_countP (fun t : Turn => decide (t.referrers = 0))
    (l := q.held.map (Turn.recount (· - 1) name))
  rw [List.length_map, List.countP_eq_length_filter, List.countP_eq_length_filter] at hsplit
  simp only [decide_eq_true_eq] at hsplit
  simp only [size, release, inPlace, List.length_mergeSort, List.length_append, ne_eq]
  omega

theorem size_foldl_release (names : List String) (q : Queue) :
    (names.foldl release q).size = q.size := by
  induction names generalizing q with
  | nil => rfl
  | cons name names ih => rw [List.foldl_cons, ih, size_release]

/-- Lets one after the other go.  At the end only those are left whose turn never comes. -/
def drain (q : Queue) : List Declaration :=
  match _h : q.ready with
  | [] => q.held.map (·.declaration)
  | t :: ready => t.declaration :: drain (t.declaration.targets.foldl release { q with ready })
termination_by q.size
decreasing_by
  rw [size_foldl_release, size, size, _h, List.length_cons]
  show ready.length + q.held.length < ready.length + 1 + q.held.length
  omega

end Queue

/-- The declarations in dependency order. -/
def dependencyOrder (ds : List Declaration) : List Declaration :=
  (Queue.ofTurns (turns ds)).drain

def inOrder : DeclarationOrder → List Declaration → List Declaration
  | .discovery, ds => ds
  | .dependency, ds => dependencyOrder ds

end TypeSketch.Declaration
