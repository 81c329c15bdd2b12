import Mathlib.Logic.Relation
import TypeSketch.Proofs.Declaration.Links
import TypeSketch.Proofs.Shape.Sorted

/-!
# The graph of declarations

The declarations that are made for a shape refer to each other as the objects in it are met in each
other.  `Linked` gathers what follows: no reference leads out of the registry, each declaration is
reached from the root, and there is no cycle.  Main statements:

* `exists_run`: writing a shape never fails if the members of its unions differ;
* `Run.linked`: the declarations that are made for a shape are linked.
-/

namespace TypeSketch.Emission

open Relation (ReflTransGen TransGen)
open Shape (Regular Within)

section Met

variable {o : Options} {σ : Key → Option String}

/-- What is met in a shape has its like in every shape that is the same. -/
theorem exists_meets_of_identity_eq {gs : List (Field Shape)} {s : Shape} (h : Meets o gs s) :
    ∀ {t : Shape}, s.Regular → t.Regular → s.identity = t.identity →
      ∃ us, Meets o us t ∧ (Shape.object us).identity = (Shape.object gs).identity := by
  induction h with
  | here hdeclared =>
      intro t _ _ heq
      cases t with
      | object us => exact ⟨us, .here (isInline_congr heq ▸ hdeclared), heq.symm⟩
      | _ => cases heq
  | item _ ih =>
      intro t hs ht heq
      cases hs with
      | array hs =>
          cases ht with
          | array ht =>
              obtain ⟨us, hus, husgs⟩ := ih hs ht (Key.array.inj heq)
              exact ⟨us, .item hus, husgs⟩
          | _ => cases heq
  | @member m ms hm _ ih =>
      intro t hs ht heq
      cases t with
      | union ns =>
          have hmem : m.identity ∈ Shape.classes ns :=
            (Shape.identity_union_eq_iff hs ht).mp heq ▸ Shape.identity_mem_classes hm
          obtain ⟨n, hn, hnm⟩ := Shape.mem_classes.mp hmem
          obtain ⟨us, hus, husgs⟩ := ih (hs.of_mem hm) (ht.of_mem hn) hnm.symm
          exact ⟨us, .member hn hus, husgs⟩
      | _ => cases heq
  | @content fs f hinline hf _ ih =>
      intro t hs ht heq
      cases t with
      | object us =>
          obtain ⟨u, hu, hcontent⟩ := Shape.exists_content_of_identity_eq heq hf
          obtain ⟨vs, hvs, hvsgs⟩ := ih (hs.content hf) (ht.content hu) hcontent
          exact ⟨vs, .content (isInline_congr heq ▸ hinline) hu hvs, hvsgs⟩
      | _ => cases heq

theorem namesOf_met_subset {s t : Shape} (hs : s.Regular) (ht : t.Regular)
    (h : s.identity = t.identity) : namesOf σ (met o [s]) ⊆ namesOf σ (met o [t]) := by
  rintro n ⟨gs, hgs, hn⟩
  obtain ⟨us, hus, hidentity⟩ := exists_meets_of_identity_eq (mem_met.mp hgs) hs ht h
  exact ⟨us, mem_met.mpr hus, hidentity ▸ hn⟩

/-- In shapes that are the same, what is met has the same names. -/
theorem namesOf_met_congr {s t : Shape} (hs : s.Regular) (ht : t.Regular)
    (h : s.identity = t.identity) : namesOf σ (met o [s]) = namesOf σ (met o [t]) :=
  (namesOf_met_subset hs ht h).antisymm (namesOf_met_subset ht hs h.symm)

/-- What is met in the fields of an object. -/
abbrev metIn (o : Options) (fs : List (Field Shape)) : Set (List (Field Shape)) :=
  met o (fs.map (·.content))

theorem mem_metIn {gs fs : List (Field Shape)} :
    gs ∈ metIn o fs ↔ ∃ f ∈ fs, Meets o gs f.content := by
  simp [met]

theorem namesOf_metIn_subset {fs gs : List (Field Shape)} (hfs : (Shape.object fs).Regular)
    (hgs : (Shape.object gs).Regular) (h : (Shape.object fs).identity = (Shape.object gs).identity) :
    namesOf σ (metIn o fs) ⊆ namesOf σ (metIn o gs) := by
  rintro n ⟨ls, hls, hn⟩
  obtain ⟨f, hf, hmeets⟩ := mem_metIn.mp hls
  obtain ⟨g, hg, hcontent⟩ := Shape.exists_content_of_identity_eq h hf
  obtain ⟨us, hus, hidentity⟩ :=
    exists_meets_of_identity_eq hmeets (hfs.content hf) (hgs.content hg) hcontent
  exact ⟨us, mem_metIn.mpr ⟨g, hg, hus⟩, hidentity ▸ hn⟩

theorem namesOf_metIn_congr {fs gs : List (Field Shape)} (hfs : (Shape.object fs).Regular)
    (hgs : (Shape.object gs).Regular) (h : (Shape.object fs).identity = (Shape.object gs).identity) :
    namesOf σ (metIn o fs) = namesOf σ (metIn o gs) :=
  (namesOf_metIn_subset hfs hgs h).antisymm (namesOf_metIn_subset hgs hfs h.symm)

/-- Every declared object in a shape is reached from what is met in it. -/
theorem exists_met_path {gs : List (Field Shape)} {s : Shape} (h : Within (.object gs) s)
    (hdeclared : isInline o gs = false) :
    ∃ fs, Meets o fs s ∧ ReflTransGen (fun a b => b ∈ metIn o a) fs gs := by
  induction h with
  | refl => exact ⟨gs, .here hdeclared, .refl⟩
  | item _ ih =>
      obtain ⟨fs, hfs, hpath⟩ := ih
      exact ⟨fs, .item hfs, hpath⟩
  | member hm _ ih =>
      obtain ⟨fs, hfs, hpath⟩ := ih
      exact ⟨fs, .member hm hfs, hpath⟩
  | @content fs f hf _ ih =>
      obtain ⟨ls, hls, hpath⟩ := ih
      cases hinline : isInline o fs with
      | true => exact ⟨ls, .content hinline hf hls, hpath⟩
      | false =>
          -- the object itself is met, and in its fields the path goes on
          exact ⟨fs, .here hinline, .head (mem_metIn.mpr ⟨f, hf, hls⟩) hpath⟩

/-- What is met in the fields of an object is smaller than the object. -/
theorem sizeOf_identity_lt_of_mem_metIn {fs gs : List (Field Shape)}
    (hfs : (Shape.object fs).Regular) (h : gs ∈ metIn o fs) :
    sizeOf (Shape.object gs).identity < sizeOf (Shape.object fs).identity := by
  obtain ⟨f, hf, hmeets⟩ := mem_metIn.mp h
  exact (Shape.sizeOf_identity_le (hfs.content hf) hmeets.within).trans_lt
    (Shape.sizeOf_identity_content_lt hf)

theorem within_of_mem_metIn {fs gs : List (Field Shape)} (h : gs ∈ metIn o fs) :
    Within (.object gs) (.object fs) := by
  obtain ⟨f, hf, hmeets⟩ := mem_metIn.mp h
  exact .content hf hmeets.within

end Met

section Runs

variable {o : Options} {s : Shape} {rootName : String}

/-- The registry with which the writing of a shape starts. -/
def start (o : Options) (s : Shape) (rootName : String) : Registry :=
  if declares o s then {} else Registry.reserve {} rootName

theorem emit_of_write {text : List Char} {references : List String} {r : Registry}
    (h : write o (start o s rootName) s rootName = (.ok (text, references), r)) :
    emit o s rootName = .ok (text, r) := by
  rw [start] at h
  simp only [emit, h]
  rfl

/-- A run of writing a shape, from its start to the end. -/
structure Run (o : Options) (s : Shape) (rootName : String) (e : Emission) : Prop where
  run : (typeOf o s.sorted rootName).run ⟨start o s rootName, []⟩ =
    (.ok (render o e.registry.nameOf? s.sorted), e)
  written : Written o (occurring o [s.sorted]) (start o s rootName) e.registry
  links : Links o (occurring o [s.sorted]) (met o [s.sorted]) ⟨start o s rootName, []⟩ e
    e.references e.registry.declarations

theorem declarations_start : (start o s rootName).declarations = [] := by
  rw [start]
  split
  · rfl
  · rfl

/-- Writing never fails on a regular shape whose unions have different members. -/
theorem exists_run (o : Options) (hs : s.Regular)
    (hunions : ∀ ms, Within (.union ms) s → ∃ m ∈ ms, ∃ n ∈ ms, m.same n = false)
    (rootName : String) : ∃ e, Run o s rootName e := by
  have hsteps := (composed (o := o) (Shape.regular_sorted hs) (writable_sorted hunions)).whole
    rootName
  have hready := ready_start (o := o) s rootName (occurring o [s.sorted])
  obtain ⟨e, hrun, hwritten⟩ := hsteps.writes.run ⟨start o s rootName, []⟩ hready
  obtain ⟨refs, added, hlinks⟩ := hsteps.links hready hrun
  -- nothing was noted or declared before
  have hrefs : e.references = refs := hlinks.references.trans (List.nil_append refs)
  have hadded : e.registry.declarations = added := by
    rw [hlinks.declarations]
    show (start o s rootName).declarations ++ added = added
    rw [declarations_start, List.nil_append]
  exact ⟨e, hrun, hwritten, hrefs ▸ hadded ▸ hlinks⟩

theorem Run.write_eq {e : Emission} (h : Run o s rootName e) (hs : s.Regular) :
    write o (start o s rootName) s rootName =
      (.ok (render o e.registry.nameOf? s.sorted, e.references), e.registry) := by
  rw [write, hs.isWhole, if_pos rfl]
  simp only [h.run]
  rfl

theorem exists_of_extract_eq_ok {e e' : Emission} {k : Key} {suggested : String}
    {fields : List String} {w : Emit (List (List Char))} {text : List Char}
    (h : extract o k suggested fields w e = (.ok text, e')) :
    ∃ parts after, w ⟨Writes.opened e.registry k suggested fields, []⟩ = (.ok parts, after) ∧
      text = (e.registry.freeName suggested).toList ∧
      e' = ⟨Writes.closed o after.registry (e.registry.freeName suggested) after.references parts,
        e.references ++ [e.registry.freeName suggested]⟩ := by
  rw [extract] at h
  dsimp only at h
  generalize hw : w.run _ = result at h
  obtain ⟨fault | parts, after⟩ := result
  · cases h
  · cases h
    exact ⟨parts, after, hw, rfl, rfl⟩

/-- A root that is declared is declared at once. -/
theorem typeOf_start {fs : List (Field Shape)} (hdeclares : declares o (.object fs) = true)
    (rootName : String) :
    typeOf o (Shape.object fs).sorted rootName ⟨start o (.object fs) rootName, []⟩ =
      extract o (Shape.object fs).sorted.identity rootName
        ((Shape.sortedBody fs).map (·.name)) (fieldsOf o (Shape.sortedBody fs)) ⟨{}, []⟩ := by
  have hidentity : (Shape.object (Shape.sortedBody fs)).identity = (Shape.object fs).identity :=
    Shape.sorted_object_eq fs ▸ Shape.identity_sorted _
  have hinline : isInline o (Shape.sortedBody fs) = false :=
    (isInline_congr hidentity).trans (Bool.not_eq_true' _ ▸ hdeclares)
  have hstart : start o (.object fs) rootName = {} := if_pos hdeclares
  have hnone : ({} : Registry).nameOf? (Shape.object (Shape.sortedBody fs)).identity = none := rfl
  rw [Shape.sorted_object_eq, hstart, typeOf, hinline, Writes.named_of_none hnone]
  rfl

/-- A root that is declared takes the name that was asked for. -/
theorem Run.references_of_declares {e : Emission} (h : Run o s rootName e)
    (hdeclares : declares o s = true) : e.references = [rootName] := by
  cases s with
  | object fs =>
      obtain ⟨-, -, -, -, rfl⟩ :=
        exists_of_extract_eq_ok ((typeOf_start hdeclares rootName).symm.trans h.run)
      exact congrArg (fun name => [name]) (Name.unique_nil rootName)
  | _ => cases hdeclares

end Runs

/-- The declaration of the first name depends on the second one. -/
def RefersTo (r : Registry) (m n : String) : Prop :=
  ∃ d ∈ r.declarations, d.name = m ∧ n ∈ d.dependencies

/-- What holds of the declarations that are made for a shape under a root name, when the text of
the root has the given references. -/
structure Linked (o : Options) (s : Shape) (rootName : String) (refs : List String)
    (r : Registry) : Prop where
  /-- No name is declared twice. -/
  nodup : (r.declarations.map (·.name)).Nodup
  /-- Each declaration is that of an object in the shape. -/
  owner : ∀ d ∈ r.declarations, ∃ fs, isInline o fs = false ∧ Within (.object fs) s ∧
    r.nameOf? (Shape.object fs).identity = some d.name
  /-- The dependencies are the names in the body. -/
  dependencies : ∀ d ∈ r.declarations, ∀ fs, isInline o fs = false → Within (.object fs) s →
    r.nameOf? (Shape.object fs).identity = some d.name →
      d.body = body o r.nameOf? fs ∧ ∀ n, n ∈ d.dependencies ↔ n ∈ namesOf r.nameOf? (metIn o fs)
  /-- The references of the root are the names in its text. -/
  references : ∀ n, n ∈ refs ↔ n ∈ namesOf r.nameOf? (met o [s])
  /-- Nothing is referred to that is not declared. -/
  closed : ∀ n, n ∈ refs ∨ (∃ m, RefersTo r m n) → n ∈ r.declarations.map (·.name)
  /-- Nothing is declared that is not referred to. -/
  reachable : ∀ d ∈ r.declarations, ∃ n ∈ refs, ReflTransGen (RefersTo r) n d.name
  acyclic : ∀ n, ¬ TransGen (RefersTo r) n n
  /-- The root is declared under its name if it is declared at all, and nothing refers to it. -/
  root : if declares o s then r.nameOf? s.identity = some rootName
    else rootName ∉ r.declarations.map (·.name)
  rootFree : ∀ m, ¬ RefersTo r m rootName

section Linking

variable {o : Options} {s : Shape} {rootName : String} {e : Emission}

theorem Run.owner (h : Run o s rootName e) (hs : s.Regular) {d : Declaration}
    (hd : d ∈ e.registry.declarations) : ∃ fs, isInline o fs = false ∧ Within (.object fs) s ∧
      e.registry.nameOf? (Shape.object fs).identity = some d.name := by
  obtain ⟨us, hus, hdeclared⟩ := h.links.owner d hd
  obtain ⟨hinline, hwithin⟩ := mem_occurring.mp hus
  -- what occurs in the sorted shape occurs in the shape
  obtain ⟨u, hu, hidentity⟩ := Shape.exists_within_of_identity_eq hwithin (Shape.regular_sorted hs)
    hs (Shape.identity_sorted _)
  cases u with
  | object fs =>
      exact ⟨fs, (isInline_congr hidentity).trans hinline, hu, hidentity ▸ hdeclared.name⟩
  | _ => cases hidentity

theorem Run.dependencies (h : Run o s rootName e) (hs : s.Regular) {d : Declaration}
    (hd : d ∈ e.registry.declarations) {fs : List (Field Shape)} (hfs : Within (.object fs) s)
    (hname : e.registry.nameOf? (Shape.object fs).identity = some d.name) (n : String) :
    n ∈ d.dependencies ↔ n ∈ namesOf e.registry.nameOf? (metIn o fs) := by
  obtain ⟨us, hus, hdeclared⟩ := h.links.owner d hd
  -- the object that was written has the same name, so it is the same
  have hidentity := h.written.fit.sound.eq_of_named hdeclared.name hname
  have hregular := (Shape.regular_sorted hs).of_within (mem_occurring.mp hus).2
  rw [hdeclared.dependencies, namesOf_metIn_congr hregular (hs.of_within hfs) hidentity]

theorem Run.body_eq (h : Run o s rootName e) (hs : s.Regular) {d : Declaration}
    (hd : d ∈ e.registry.declarations) {fs : List (Field Shape)} (hfs : Within (.object fs) s)
    (hinline : isInline o fs = false)
    (hname : e.registry.nameOf? (Shape.object fs).identity = some d.name) :
    d.body = body o e.registry.nameOf? fs := by
  obtain ⟨name, d', hname', hd', hbody⟩ :=
    exists_declaration hs (nameOf?_start s rootName) h.written hfs hinline
  rw [hname, Option.some.injEq] at hname'
  obtain ⟨hmem, heq⟩ := Registry.mem_of_declaration? hd'
  rw [List.inj_on_of_nodup_map h.links.nodup hd hmem (hname'.trans heq.symm), hbody]

theorem Run.references_iff (h : Run o s rootName e) (hs : s.Regular) (n : String) :
    n ∈ e.references ↔ n ∈ namesOf e.registry.nameOf? (met o [s]) := by
  rw [h.links.referred,
    namesOf_met_congr (Shape.regular_sorted hs) hs (Shape.identity_sorted _)]

/-- Every declared object in the shape has a name. -/
theorem Run.exists_name (h : Run o s rootName e) (hs : s.Regular) {fs : List (Field Shape)}
    (hinline : isInline o fs = false) (hfs : Within (.object fs) s) :
    ∃ d ∈ e.registry.declarations, e.registry.nameOf? (Shape.object fs).identity = some d.name := by
  obtain ⟨name, d, hname, hd, -⟩ :=
    exists_declaration hs (nameOf?_start s rootName) h.written hfs hinline
  obtain ⟨hmem, heq⟩ := Registry.mem_of_declaration? hd
  exact ⟨d, hmem, heq ▸ hname⟩

theorem Run.refersTo (h : Run o s rootName e) (hs : s.Regular) {fs gs : List (Field Shape)}
    (hfs : Within (.object fs) s) (hinline : isInline o fs = false) (hgs : gs ∈ metIn o fs) {n : String}
    (hn : e.registry.nameOf? (Shape.object gs).identity = some n) :
    ∃ m, e.registry.nameOf? (Shape.object fs).identity = some m ∧ RefersTo e.registry m n := by
  obtain ⟨d, hd, hname⟩ := h.exists_name hs hinline hfs
  exact ⟨d.name, hname, d, hd, rfl, (h.dependencies hs hd hfs hname n).mpr ⟨gs, hgs, hn⟩⟩

/-- A dependency is that of an object on another one that is met in its fields. -/
theorem Run.exists_of_refersTo (h : Run o s rootName e) (hs : s.Regular) {m n : String}
    (hmn : RefersTo e.registry m n) : ∃ fs gs, Within (.object fs) s ∧ gs ∈ metIn o fs ∧
      e.registry.nameOf? (Shape.object fs).identity = some m ∧
      e.registry.nameOf? (Shape.object gs).identity = some n := by
  obtain ⟨d, hd, rfl, hdep⟩ := hmn
  obtain ⟨fs, hinline, hfs, hname⟩ := h.owner hs hd
  obtain ⟨gs, hgs, hn⟩ := (h.dependencies hs hd hfs hname n).mp hdep
  exact ⟨fs, gs, hfs, hgs, hname, hn⟩

theorem mem_names_of_nameOf? (h : Run o s rootName e) {k : Key} {n : String}
    (hn : e.registry.nameOf? k = some n) : n ∈ e.registry.declarations.map (·.name) := by
  obtain ⟨d, hd⟩ := h.written.fit.sound.declared_of_named hn
  exact List.mem_map.mpr ⟨d, Registry.mem_of_declaration? hd⟩

theorem Run.closed (h : Run o s rootName e) (hs : s.Regular) {n : String}
    (hn : n ∈ e.references ∨ ∃ m, RefersTo e.registry m n) :
    n ∈ e.registry.declarations.map (·.name) := by
  rcases hn with hn | ⟨m, hmn⟩
  · obtain ⟨gs, -, hname⟩ := (h.references_iff hs n).mp hn
    exact mem_names_of_nameOf? h hname
  · obtain ⟨-, gs, -, -, -, hname⟩ := h.exists_of_refersTo hs hmn
    exact mem_names_of_nameOf? h hname

theorem within_of_met_path {fs gs : List (Field Shape)} (hfs : Meets o fs s)
    (hpath : ReflTransGen (fun a b => b ∈ metIn o a) fs gs) :
    Within (.object gs) s ∧ isInline o gs = false := by
  induction hpath with
  | refl => exact ⟨hfs.within, hfs.declared⟩
  | tail _ hgs ih =>
      obtain ⟨f, -, hmeets⟩ := mem_metIn.mp hgs
      exact ⟨(within_of_mem_metIn hgs).trans ih.1, hmeets.declared⟩

/-- A path of objects that are met in each other is a path of references. -/
theorem Run.reachable_of_path (h : Run o s rootName e) (hs : s.Regular)
    {fs gs : List (Field Shape)} (hfs : Meets o fs s)
    (hpath : ReflTransGen (fun a b => b ∈ metIn o a) fs gs) {m : String}
    (hm : e.registry.nameOf? (Shape.object gs).identity = some m) :
    ∃ n ∈ e.references, ReflTransGen (RefersTo e.registry) n m := by
  induction hpath generalizing m with
  | refl =>
      exact ⟨m, (h.references_iff hs m).mpr ⟨fs, mem_met.mpr hfs, hm⟩, .refl⟩
  | tail hpath hgs ih =>
      obtain ⟨hwithin, hinline⟩ := within_of_met_path hfs hpath
      obtain ⟨l, hl, hlm⟩ := h.refersTo hs hwithin hinline hgs hm
      obtain ⟨n, hn, hreach⟩ := ih hl
      exact ⟨n, hn, hreach.tail hlm⟩

theorem Run.reachable (h : Run o s rootName e) (hs : s.Regular) {d : Declaration}
    (hd : d ∈ e.registry.declarations) :
    ∃ n ∈ e.references, ReflTransGen (RefersTo e.registry) n d.name := by
  obtain ⟨gs, hinline, hgs, hname⟩ := h.owner hs hd
  obtain ⟨fs, hfs, hpath⟩ := exists_met_path hgs hinline
  exact h.reachable_of_path hs hfs hpath hname

open Classical in
/-- The size of the structure that has a name. -/
noncomputable def rank (r : Registry) (n : String) : Nat :=
  if h : ∃ k, r.nameOf? k = some n then sizeOf h.choose else 0

theorem rank_eq {r : Registry} (hr : r.Sound) {k : Key} {n : String} (h : r.nameOf? k = some n) :
    rank r n = sizeOf k := by
  have hexists : ∃ k, r.nameOf? k = some n := ⟨k, h⟩
  rw [rank, dif_pos hexists, hr.eq_of_named hexists.choose_spec h]

/-- What is referred to is smaller. -/
theorem Run.rank_lt (h : Run o s rootName e) (hs : s.Regular) {m n : String}
    (hmn : RefersTo e.registry m n) : rank e.registry n < rank e.registry m := by
  obtain ⟨fs, gs, hfs, hgs, hm, hn⟩ := h.exists_of_refersTo hs hmn
  rw [rank_eq h.written.fit.sound hm, rank_eq h.written.fit.sound hn]
  exact sizeOf_identity_lt_of_mem_metIn (hs.of_within hfs) hgs

theorem Run.rank_lt_of_path (h : Run o s rootName e) (hs : s.Regular) {m n : String}
    (hmn : TransGen (RefersTo e.registry) m n) : rank e.registry n < rank e.registry m := by
  induction hmn with
  | single hmn => exact h.rank_lt hs hmn
  | tail _ hmn ih => exact (h.rank_lt hs hmn).trans ih

theorem Run.nameOf?_root (h : Run o s rootName e) (hs : s.Regular) (hdeclares : declares o s = true) :
    e.registry.nameOf? s.identity = some rootName := by
  have hrefs : rootName ∈ e.references := by
    rw [h.references_of_declares hdeclares]
    exact List.mem_singleton_self rootName
  obtain ⟨gs, hgs, hname⟩ := (h.references_iff hs rootName).mp hrefs
  cases s with
  | object fs =>
      have hinline : isInline o fs = false := by simpa [declares] using hdeclares
      rw [met_declared hinline] at hgs
      rwa [← Set.mem_singleton_iff.mp hgs]
  | _ => cases hdeclares

/-- A root that is not declared keeps its name from all declarations. -/
theorem Run.root_notMem (h : Run o s rootName e) (hdeclares : declares o s = false) :
    rootName ∉ e.registry.declarations.map (·.name) := by
  intro hmem
  obtain ⟨d, hd, hname⟩ := List.mem_map.mp hmem
  apply h.links.fresh d hd
  have hstart : start o s rootName = Registry.reserve {} rootName := by
    rw [start, hdeclares]
    rfl
  show d.name ∈ (start o s rootName).used
  rw [hstart, hname]
  exact List.mem_singleton_self rootName

theorem Run.root (h : Run o s rootName e) (hs : s.Regular) :
    if declares o s then e.registry.nameOf? s.identity = some rootName
    else rootName ∉ e.registry.declarations.map (·.name) := by
  cases hdeclares : declares o s with
  | true => exact h.nameOf?_root hs hdeclares
  | false => exact h.root_notMem hdeclares

theorem Run.rootFree (h : Run o s rootName e) (hs : s.Regular) (m : String) :
    ¬ RefersTo e.registry m rootName := by
  intro hroot
  cases hdeclares : declares o s with
  | false => exact h.root_notMem hdeclares (h.closed hs (.inr ⟨m, hroot⟩))
  | true =>
      -- what is met in an object of the shape is smaller than the shape
      obtain ⟨fs, gs, hfs, hgs, -, hname⟩ := h.exists_of_refersTo hs hroot
      have hidentity := h.written.fit.sound.eq_of_named hname (h.nameOf?_root hs hdeclares)
      have hlt := sizeOf_identity_lt_of_mem_metIn (hs.of_within hfs) hgs
      have hle := Shape.sizeOf_identity_le hs hfs
      rw [hidentity] at hlt
      exact Nat.lt_irrefl _ (hlt.trans_le hle)

/-- The declarations that are made for a shape are linked. -/
theorem Run.linked (h : Run o s rootName e) (hs : s.Regular) :
    Linked o s rootName e.references e.registry where
  nodup := h.links.nodup
  owner _ hd := h.owner hs hd
  dependencies _ hd _ hinline hfs hname :=
    ⟨h.body_eq hs hd hfs hinline hname, h.dependencies hs hd hfs hname⟩
  references := h.references_iff hs
  closed _ hn := h.closed hs hn
  reachable _ hd := h.reachable hs hd
  acyclic _ hn := Nat.lt_irrefl _ (h.rank_lt_of_path hs hn)
  root := h.root hs
  rootFree := h.rootFree hs

end Linking

end TypeSketch.Emission
