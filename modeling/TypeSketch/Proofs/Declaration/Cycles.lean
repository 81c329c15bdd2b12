import Mathlib.Data.Set.Finite.List
import Mathlib.Logic.Relation
import Mathlib.Order.WellFounded
import TypeSketch.Proofs.Declaration.Order

/-!
# Cycles of declarations

A registry may hold declarations that refer to each other in a circle, to themselves, or to nothing
that is declared.  Main statement: `arranged_dependencyOrder`, the declarations on a cycle and
behind one come last, in the order of discovery, and all others go as soon as nothing that waits
refers to them.
-/

namespace TypeSketch.Declaration

open Relation (ReflTransGen TransGen)

/-- One declaration refers to another one. -/
structure Refers (ds : List Declaration) (d e : Declaration) : Prop where
  source : d ∈ ds
  target : e ∈ ds
  other : d.name ≠ e.name
  named : e.name ∈ d.dependencies

/-- The declaration is on a cycle of several, or is reached from one. -/
def Stuck (ds : List Declaration) (d : Declaration) : Prop :=
  ∃ c, TransGen (Refers ds) c c ∧ ReflTransGen (Refers ds) c d

/-- The declaration that goes next: all others that refer to it are placed, and whatever was
discovered earlier is placed or still waits for another. -/
structure GoesNext (ds placed : List Declaration) (d : Declaration) : Prop where
  unplaced : d ∉ placed
  free : ∀ e, Refers ds e d → e ∈ placed
  earliest : ∃ earlier later, ds = earlier ++ d :: later ∧
    ∀ e ∈ earlier, e ∈ placed ∨ ∃ f, Refers ds f e ∧ f ∉ placed

/-- An order of declarations in which those that are stuck come last. -/
structure Arranged (ds order free stuck : List Declaration) : Prop where
  parts : order = free ++ stuck
  /-- Each declaration stands there once. -/
  perm : order.Perm ds
  stuck_iff : ∀ d ∈ ds, d ∈ stuck ↔ Stuck ds d
  free_iff : ∀ d ∈ ds, d ∈ free ↔ ¬ Stuck ds d
  /-- What is stuck stands in the order of discovery. -/
  discovered : stuck.Sublist ds
  next : ∀ before d after, free = before ++ d :: after → GoesNext ds before d
  /-- What is not stuck stands before all others that it refers to. -/
  ahead : ∀ before d after, order = before ++ d :: after → d ∈ free →
    ∀ e, Refers ds d e → e ∈ after

section Waiting

variable {ds placed : List Declaration} {d e : Declaration}

/-- The declarations that are not placed. -/
def unplaced (ds placed : List Declaration) : List Declaration :=
  ds.filter (· ∉ placed)

theorem mem_unplaced : d ∈ unplaced ds placed ↔ d ∈ ds ∧ d ∉ placed := by
  simp [unplaced]

theorem unplaced_nil (ds : List Declaration) : unplaced ds [] = ds :=
  List.filter_eq_self.mpr fun d _ => by simp

theorem unplaced_cons (hds : ds.Nodup) (d : Declaration) (placed : List Declaration) :
    unplaced ds (d :: placed) = unplaced (ds.erase d) placed := by
  rw [unplaced, unplaced, hds.erase_eq_filter, List.filter_filter]
  refine List.filter_congr fun e _ => ?_
  by_cases he : e = d
  · simp [he]
  · simp [he]

/-- A declaration is ready when all others that refer to it are placed. -/
theorem isReady_unplaced_iff (hd : d ∈ ds) :
    isReady (unplaced ds placed) d = true ↔ ∀ e, Refers ds e d → e ∈ placed := by
  rw [isReady_iff]
  constructor
  · intro h e he
    by_contra hplaced
    rcases h e (mem_unplaced.mpr ⟨he.source, hplaced⟩) with hname | hdep
    · exact he.other hname
    · exact hdep he.named
  · intro h e he
    obtain ⟨hmem, hplaced⟩ := mem_unplaced.mp he
    by_contra hrefers
    rw [not_or, not_not] at hrefers
    exact hplaced (h e ⟨hmem, hd, hrefers.1, hrefers.2⟩)

/-- What is found first among those that are not placed goes next. -/
theorem goesNext_of_find?
    (h : (unplaced ds placed).find? (isReady (unplaced ds placed)) = some d) :
    GoesNext ds placed d := by
  obtain ⟨hready, before, after, hsplit, hbefore⟩ := List.find?_eq_some_iff_append.mp h
  obtain ⟨hmem, hplaced⟩ := mem_unplaced.mp (List.mem_of_find?_eq_some h)
  refine ⟨hplaced, (isReady_unplaced_iff hmem).mp hready, ?_⟩
  -- the declarations in front of it are those that are placed, and those that are not ready
  obtain ⟨xs, ys, rfl, rfl, hys⟩ := List.filter_eq_append_iff.mp hsplit
  obtain ⟨zs, ws, rfl, hzs, -, -⟩ := List.filter_eq_cons_iff.mp hys
  refine ⟨xs ++ zs, ws, (List.append_assoc ..).symm, fun e he => ?_⟩
  by_cases heplaced : e ∈ placed
  · exact .inl heplaced
  · right
    have hexs : e ∈ xs := (List.mem_append.mp he).resolve_right fun hezs =>
      hzs e hezs (by simpa using heplaced)
    have hunready := hbefore e (List.mem_filter.mpr ⟨hexs, by simpa using heplaced⟩)
    have heds : e ∈ xs ++ (zs ++ d :: ws) := List.mem_append_left _ hexs
    rw [Bool.not_eq_true', Bool.eq_false_iff] at hunready
    have hwaits := mt (isReady_unplaced_iff heds).mpr hunready
    simpa using hwaits

end Waiting

section Runs

variable {ds : List Declaration}

/-- A run that lets one after the other go stops where nothing is ready any more. -/
theorem exists_readyOrder_eq (hds : ds.Nodup) : ∃ free stuck, readyOrder ds = free ++ stuck ∧
    stuck.Sublist ds ∧ (∀ d ∈ stuck, isReady stuck d = false) ∧
    ∀ before d after, free = before ++ d :: after →
      (unplaced ds before).find? (isReady (unplaced ds before)) = some d := by
  fun_induction readyOrder ds with
  | case1 ds hnone =>
      refine ⟨[], ds, rfl, .refl ds, fun d hd => ?_, fun before d after h => ?_⟩
      · exact Bool.eq_false_iff.mpr (List.find?_eq_none.mp hnone d hd)
      · exact absurd h.symm (List.append_ne_nil_of_right_ne_nil _ (List.cons_ne_nil _ _))
  | case2 ds d hd ih =>
      obtain ⟨free, stuck, hparts, hsublist, hunready, hnext⟩ := ih (hds.erase d)
      refine ⟨d :: free, stuck, by rw [hparts, List.cons_append],
        hsublist.trans List.erase_sublist, hunready, fun before e after h => ?_⟩
      cases before with
      | nil =>
          obtain ⟨rfl, -⟩ := List.cons.inj h
          rw [unplaced_nil]
          exact hd
      | cons c before =>
          obtain ⟨rfl, hfree⟩ := List.cons.inj h
          rw [unplaced_cons hds]
          exact hnext before e after hfree

end Runs

section Stuck

variable {ds waiting : List Declaration} {d : Declaration}

/-- The waiting declarations from which one is reached. -/
abbrev InFront (ds waiting : List Declaration) (d : Declaration) : Type :=
  {a // a ∈ waiting ∧ ReflTransGen (Refers ds) a d}

theorem finite_inFront (ds waiting : List Declaration) (d : Declaration) :
    Finite (InFront ds waiting d) :=
  ((List.finite_toSet waiting).subset fun _ ha => ha.1).to_subtype

/-- What is not ready is referred to by another one that waits. -/
theorem exists_refers (hd : d ∈ ds) (hsub : ∀ e ∈ waiting, e ∈ ds)
    (h : isReady waiting d = false) : ∃ e ∈ waiting, Refers ds e d := by
  rw [Bool.eq_false_iff, ne_eq, isReady_iff] at h
  push Not at h
  obtain ⟨e, he, hname, hdep⟩ := h
  exact ⟨e, he, hsub e he, hd, hname, hdep⟩

/-- Where each declaration is referred to by another one, each is behind a cycle. -/
theorem stuck_of_forall_exists (h : ∀ d ∈ waiting, ∃ e ∈ waiting, Refers ds e d)
    (hd : d ∈ waiting) : Stuck ds d := by
  by_contra hstuck
  -- without a cycle in front of it there would be a first declaration
  have hfinite := finite_inFront ds waiting d
  have htrans : IsTrans (InFront ds waiting d) fun a b => TransGen (Refers ds) a.1 b.1 :=
    ⟨fun _ _ _ => TransGen.trans⟩
  have hirrefl : Std.Irrefl fun a b : InFront ds waiting d => TransGen (Refers ds) a.1 b.1 :=
    ⟨fun a ha => hstuck ⟨a.1, ha, a.2.2⟩⟩
  have hwf := Finite.wellFounded_of_trans_of_irrefl fun a b : InFront ds waiting d =>
    TransGen (Refers ds) a.1 b.1
  have hnone (a : InFront ds waiting d) : False := by
    induction a using hwf.induction with
    | h a ih =>
        obtain ⟨e, he, hrefers⟩ := h a.1 a.2.1
        exact ih ⟨e, he, .head hrefers a.2.2⟩ (.single hrefers)
  exact hnone ⟨d, hd, .refl⟩

end Stuck

section Free

variable {ds free stuck : List Declaration} {c d : Declaration}
  (hnext : ∀ before d after, free = before ++ d :: after → GoesNext ds before d)

include hnext

/-- What a declaration is reached from goes before it. -/
theorem mem_before_of_path (hpath : TransGen (Refers ds) c d) :
    ∀ {before after}, free = before ++ d :: after → c ∈ before := by
  induction hpath with
  | single hrefers => exact fun h => (hnext _ _ _ h).free _ hrefers
  | tail _ hrefers ih =>
      intro before after h
      obtain ⟨earlier, later, rfl⟩ := List.append_of_mem ((hnext _ _ _ h).free _ hrefers)
      rw [List.append_assoc, List.cons_append] at h
      exact List.mem_append_left _ (ih h)

/-- What is stuck never goes. -/
theorem notMem_of_stuck (hstuck : Stuck ds d) : d ∉ free := by
  intro hd
  obtain ⟨c, hcycle, hpath⟩ := hstuck
  have hc : c ∈ free := by
    rcases Relation.reflTransGen_iff_eq_or_transGen.mp hpath with rfl | hpath
    · exact hd
    · obtain ⟨before, after, rfl⟩ := List.append_of_mem hd
      exact List.mem_append_left _ (mem_before_of_path hnext hpath rfl)
  obtain ⟨before, after, rfl⟩ := List.append_of_mem hc
  exact (hnext _ _ _ rfl).unplaced (mem_before_of_path hnext hcycle rfl)

/-- What is free to go stands before all others that it refers to. -/
theorem mem_after_of_refers {order before after : List Declaration} (horder : order.Nodup)
    (hparts : order = free ++ stuck) (hperm : order.Perm ds) (h : order = before ++ d :: after)
    (hd : d ∈ free) {e : Declaration} (hrefers : Refers ds d e) : e ∈ after := by
  have he : e ∈ before ++ d :: after := h ▸ hperm.mem_iff.mpr hrefers.target
  rcases List.mem_append.mp he with he | he
  · -- what goes earlier has its referrers in front of it, and so the declaration itself
    exfalso
    obtain ⟨placed, others, rfl⟩ := List.append_of_mem hd
    rw [hparts, List.append_assoc, List.cons_append] at h
    rw [hparts, List.append_assoc, List.cons_append, List.nodup_middle, List.nodup_cons] at horder
    obtain ⟨rfl, -, -⟩ := (List.append_cons_inj_of_notMem
      (fun hmem => horder.1 (List.mem_append_left _ hmem))
      (fun hmem => horder.1 (List.mem_append_right _ hmem))).mp h
    obtain ⟨earlier, later, rfl⟩ := List.append_of_mem he
    have hfree := (hnext earlier e (later ++ d :: others)
      (by rw [List.append_assoc, List.cons_append])).free d hrefers
    exact horder.1 (List.mem_append_left _ (List.mem_append_left _ hfree))
  · exact (List.mem_cons.mp he).resolve_left fun heq => hrefers.other (congrArg _ heq.symm)

end Free

/-- A registry with any references between its declarations is put in order. -/
theorem arranged_dependencyOrder (r : Registry) (h : (r.declarations.map (·.name)).Nodup) :
    ∃ free stuck,
      Arranged r.declarations (inOrder .dependency r.declarations) free stuck := by
  have hds : r.declarations.Nodup := h.of_map
  have hperm := perm_inOrder .dependency r.declarations
  obtain ⟨free, stuck, hparts, hsublist, hunready, hfind⟩ := exists_readyOrder_eq hds
  have hnext : ∀ before d after, free = before ++ d :: after →
      GoesNext r.declarations before d := fun before d after hfree =>
    goesNext_of_find? (hfind before d after hfree)
  have horder : inOrder .dependency r.declarations = free ++ stuck :=
    (dependencyOrder_eq r.declarations).trans hparts
  have hstuck : ∀ d ∈ stuck, Stuck r.declarations d := fun d hd =>
    stuck_of_forall_exists (fun e he => exists_refers (hsublist.subset he)
      (fun f hf => hsublist.subset hf) (hunready e he)) hd
  have hmem : ∀ d ∈ r.declarations, d ∈ free ∨ d ∈ stuck := fun d hd =>
    List.mem_append.mp (horder ▸ hperm.mem_iff.mpr hd)
  refine ⟨free, stuck, ?_⟩
  constructor
  case parts => exact horder
  case perm => exact hperm
  case discovered => exact hsublist
  case next => exact hnext
  case stuck_iff =>
    exact fun d hd => ⟨hstuck d, fun h => (hmem d hd).resolve_left (notMem_of_stuck hnext h)⟩
  case free_iff =>
    exact fun d hd => ⟨fun h hd' => notMem_of_stuck hnext hd' h,
      fun h => (hmem d hd).resolve_right fun hd' => h (hstuck d hd')⟩
  case ahead =>
    exact fun before d after hsplit hd e hrefers =>
      mem_after_of_refers hnext (hperm.nodup_iff.mpr hds) horder hperm hsplit hd hrefers

/-- A node that refers to itself and to an edge. -/
def node : Declaration :=
  { name := "Node", dependencies := ["Node", "Edge", "Leaf"] }

/-- An edge that refers back to the node. -/
def edge : Declaration :=
  { name := "Edge", dependencies := ["Node"] }

def leaf : Declaration :=
  { name := "Leaf" }

/-- Declarations on a cycle, one behind it, and three that have nothing to do with it. -/
def tangled : Registry where
  declarations :=
    [{ name := "Root", dependencies := ["List", "Note", "List", "Unknown"] }, node, edge, leaf,
      { name := "Note", dependencies := ["Note"] },
      { name := "List", dependencies := ["Note", "Leaf"] }]

/-- The leaf is stuck behind the cycle, although the list refers to it as well. -/
theorem arranged_dependencyOrder_tangled :
    (tangled.declarations.map (·.name)).Nodup ∧
      (inOrder .dependency tangled.declarations).map (·.name) =
        ["Root", "List", "Note", "Node", "Edge", "Leaf"] ∧
      ∃ free stuck, Arranged tangled.declarations
        (inOrder .dependency tangled.declarations) free stuck ∧ leaf ∈ stuck := by
  have hnodup : (tangled.declarations.map (·.name)).Nodup := by decide
  have hthere : Refers tangled.declarations node edge := by constructor <;> decide
  have hback : Refers tangled.declarations edge node := by constructor <;> decide
  have hbehind : Refers tangled.declarations node leaf := by constructor <;> decide
  obtain ⟨free, stuck, harranged⟩ := arranged_dependencyOrder tangled hnodup
  exact ⟨hnodup, by decide +kernel, free, stuck, harranged,
    (harranged.stuck_iff leaf (by decide)).mpr
      ⟨node, .tail (.single hthere) hback, .single hbehind⟩⟩

end TypeSketch.Declaration
