import Mathlib.Data.Finset.Card
import TypeSketch.Proofs.Shape.KeyText
import TypeSketch.Shape.Merge

/-!
# Structural equality

Two shapes are the same when their identities agree.  Main statements, for regular shapes: a union
is determined by the set of identities of its members, and an object by what it has under each
name.
-/

namespace TypeSketch

section Fields

variable {α β : Type}

@[simp]
theorem Field.map_name (g : α → β) (f : Field α) : (f.map g).name = f.name := rfl

@[simp]
theorem names_map (g : α → β) (fs : List (Field α)) :
    (fs.map (Field.map g)).map (·.name) = fs.map (·.name) := by
  rw [List.map_map]
  rfl

/-- What an object with the given fields has under a name. -/
def entry (name : String) (fs : List (Field α)) : Option (Field α) :=
  fs.find? fun f => f.name = name

theorem entry_cons (name : String) (f : Field α) (fs : List (Field α)) :
    entry name (f :: fs) = if f.name = name then some f else entry name fs := by
  rw [entry, List.find?_cons]
  by_cases h : f.name = name
  · rw [if_pos h]
    simp [h]
  · rw [if_neg h]
    simp [h, entry]

theorem entry_map (name : String) {g : Field α → Field β} (hg : ∀ f, (g f).name = f.name)
    (fs : List (Field α)) : entry name (fs.map g) = (entry name fs).map g := by
  rw [entry, List.find?_map]
  congr 2
  funext f
  rw [Function.comp_apply, hg]

theorem mem_of_entry_eq_some {name : String} {fs : List (Field α)} {f : Field α}
    (h : entry name fs = some f) : f ∈ fs ∧ f.name = name := by
  rw [entry] at h
  exact ⟨List.mem_of_find?_eq_some h, by simpa using List.find?_some h⟩

theorem entry_eq_none_iff {name : String} {fs : List (Field α)} :
    entry name fs = none ↔ name ∉ fs.map (·.name) := by
  rw [entry, List.find?_eq_none]
  simp

theorem entry_eq_some_iff {name : String} :
    ∀ {fs : List (Field α)} {f : Field α}, (fs.map (·.name)).Nodup →
      (entry name fs = some f ↔ f ∈ fs ∧ f.name = name)
  | fs, f, hnames => by
      constructor
      · exact mem_of_entry_eq_some
      · rintro ⟨hf, rfl⟩
        cases hg : entry f.name fs with
        | none => exact absurd (List.mem_map_of_mem hf) (entry_eq_none_iff.mp hg)
        | some g =>
            obtain ⟨hgfs, hgname⟩ := mem_of_entry_eq_some hg
            rw [List.inj_on_of_nodup_map hnames hgfs hf hgname]

theorem entry_map_names {field : String → Field α} (hfield : ∀ name, (field name).name = name)
    {names : List String} (hnames : names.Nodup) (name : String) :
    entry name (names.map field) = if name ∈ names then some (field name) else none := by
  have hmap : (names.map field).map (·.name) = names := by
    rw [List.map_map]
    exact (List.map_congr_left fun n _ => hfield n).trans (List.map_id names)
  split
  · rename_i h
    rw [entry_eq_some_iff (hmap.symm ▸ hnames)]
    exact ⟨List.mem_map_of_mem h, hfield name⟩
  · rename_i h
    rwa [entry_eq_none_iff, hmap]

theorem sortFields_map {g : Field α → Field β} (hg : ∀ f, (g f).name = f.name)
    (fs : List (Field α)) : sortFields (fs.map g) = (sortFields fs).map g := by
  rw [sortFields, sortFields, List.map_mergeSort]
  intro a _ b _
  rw [hg, hg]

theorem mem_sortFields {fs : List (Field α)} {f : Field α} : f ∈ sortFields fs ↔ f ∈ fs := by
  rw [sortFields, List.mem_mergeSort]

theorem nodup_names_sortFields {fs : List (Field α)} (h : (fs.map (·.name)).Nodup) :
    ((sortFields fs).map (·.name)).Nodup :=
  ((List.mergeSort_perm fs _).map (·.name)).nodup_iff.mpr h

theorem names_trans (a b c : Field α) (hab : decide (a.name ≤ b.name) = true)
    (hbc : decide (b.name ≤ c.name) = true) : decide (a.name ≤ c.name) = true :=
  decide_eq_true (String.le_trans (of_decide_eq_true hab) (of_decide_eq_true hbc))

theorem names_total (a b : Field α) :
    (decide (a.name ≤ b.name) || decide (b.name ≤ a.name)) = true := by
  rcases String.le_total a.name b.name with hle | hle
  · simp [hle]
  · simp [hle]

theorem sortFields_sortFields (fs : List (Field α)) : sortFields (sortFields fs) = sortFields fs :=
  List.mergeSort_of_pairwise (List.pairwise_mergeSort names_trans names_total fs)

theorem sortFields_eq_of_perm {fs gs : List (Field α)} (hfs : (fs.map (·.name)).Nodup)
    (h : fs.Perm gs) : sortFields fs = sortFields gs := by
  apply mergeSort_eq_of_perm names_trans names_total h
  intro f hf g hg hle hge
  have hname := String.le_antisymm (of_decide_eq_true hle) (of_decide_eq_true hge)
  exact List.inj_on_of_nodup_map hfs hf (h.mem_iff.mpr hg) hname

/-- Where names are not repeated, the order of the fields is all that sorting forgets. -/
theorem sortFields_eq_iff {fs gs : List (Field α)} (hfs : (fs.map (·.name)).Nodup)
    (hgs : (gs.map (·.name)).Nodup) :
    sortFields fs = sortFields gs ↔ ∀ name, entry name fs = entry name gs := by
  constructor
  · intro h name
    ext f
    rw [entry_eq_some_iff hfs, entry_eq_some_iff hgs, ← mem_sortFields, h, mem_sortFields]
  · intro h
    have hperm : fs.Perm gs := by
      rw [List.perm_ext_iff_of_nodup hfs.of_map hgs.of_map]
      intro f
      have hf : entry f.name fs = some f ↔ f ∈ fs ∧ f.name = f.name := entry_eq_some_iff hfs
      rw [h, entry_eq_some_iff hgs] at hf
      simpa using hf.symm
    exact sortFields_eq_of_perm hfs hperm

/-- Contents may be changed before the fields of two objects are compared. -/
theorem sortFields_map_eq_iff (g : α → β) {fs gs : List (Field α)} (hfs : (fs.map (·.name)).Nodup)
    (hgs : (gs.map (·.name)).Nodup) :
    sortFields (fs.map (Field.map g)) = sortFields (gs.map (Field.map g)) ↔
      ∀ name, (entry name fs).map (Field.map g) = (entry name gs).map (Field.map g) := by
  rw [sortFields_eq_iff ((names_map g fs).symm ▸ hfs) ((names_map g gs).symm ▸ hgs)]
  simp only [entry_map _ (Field.map_name g)]

end Fields

namespace Shape

theorem keys_eq_map (shapes : List Shape) : keys shapes = shapes.map key := by
  induction shapes with
  | nil => rfl
  | cons s rest ih => rw [keys, ih, List.map_cons]

theorem keysOfFields_eq_map (fs : List (Field Shape)) :
    keysOfFields fs = fs.map (Field.map key) := by
  induction fs with
  | nil => rfl
  | cons f fs ih => rw [keysOfFields, ih, List.map_cons]; rfl

@[simp]
theorem identity_null : identity .null = .null := rfl

@[simp]
theorem identity_primitive (kind : Kind) (l : Option Literal) :
    identity (.primitive kind l) = .primitive kind (l.map (Literal.canonical kind)) := by
  cases l with
  | none => rfl
  | some l =>
      simp only [identity, key, Option.map_some, Key.canonical, Literal.canonical_token]

@[simp]
theorem identity_array (s : Shape) : identity (.array s) = .array s.identity := rfl

theorem identity_object (fs : List (Field Shape)) :
    identity (.object fs) = .object (sortFields (fs.map (Field.map identity))) := by
  rw [identity, key, Key.canonical, keysOfFields_eq_map, Key.canonicalFields_eq_map,
    ← sortFields_map (Field.map_name Key.canonical), List.map_map]
  rfl

section Forms

variable {s r : Shape}

theorem isNull_iff : s.isNull = true ↔ s.identity = .null := by
  cases s <;> simp [isNull, identity, key, Key.canonical]

theorem exists_eq_union (h : s.isUnion = true) : ∃ ms, s = .union ms := by
  cases s with
  | union ms => exact ⟨ms, rfl⟩
  | _ => cases h

theorem members_of_isUnion_eq_false (h : s.isUnion = false) : s.members = [s] := by
  cases s with
  | union ms => cases h
  | _ => rfl

-- shapes that are the same have the same form

theorem isNull_of_identity_eq (h : s.identity = r.identity) : s.isNull = r.isNull := by
  cases s <;> cases r <;> first | rfl | cases h

theorem isUnion_of_identity_eq (h : s.identity = r.identity) : s.isUnion = r.isUnion := by
  cases s <;> cases r <;> first | rfl | cases h

theorem isScalar_of_identity_eq (h : s.identity = r.identity) : s.isScalar = r.isScalar := by
  cases s <;> cases r <;> first | rfl | cases h

end Forms

/-- A shape without holes in which literals are of their kind and names are not repeated. -/
inductive WellTyped : Shape → Prop
  | null : WellTyped .null
  | primitive {kind : Kind} {l : Option Literal} (hkind : ∀ m ∈ l, m.kind = kind) :
      WellTyped (.primitive kind l)
  | array {s : Shape} (hs : WellTyped s) : WellTyped (.array s)
  | object {fs : List (Field Shape)} (hnames : (fs.map (·.name)).Nodup)
      (hfs : ∀ f ∈ fs, WellTyped f.content) : WellTyped (.object fs)
  | union {ms : List Shape} (hms : ∀ m ∈ ms, WellTyped m) : WellTyped (.union ms)

theorem WellTyped.proper_key {s : Shape} (hs : s.WellTyped) : s.key.Proper := by
  induction hs with
  | null => exact .null
  | @primitive kind l hkind =>
      cases l with
      | none => exact .bare kind
      | some l => exact .literal (Literal.isToken_token (hkind l rfl))
  | array _ ih => exact .array ih
  | object _ _ ih =>
      refine .object fun f hf => ?_
      rw [mem_sortFields, keysOfFields_eq_map] at hf
      obtain ⟨g, hg, rfl⟩ := List.mem_map.mp hf
      exact ih g hg
  | @union ms _ ih =>
      have hkeys : ∀ k ∈ keys ms, k.Proper := by
        intro k hk
        rw [keys_eq_map] at hk
        obtain ⟨m, hm, rfl⟩ := List.mem_map.mp hk
        exact ih m hm
      exact .union fun k hk => hkeys k ((Key.mem_arrange hkeys).mp hk)

theorem WellTyped.identity_eq_key {s : Shape} (hs : s.WellTyped) : s.identity = s.key :=
  hs.proper_key.canonical_eq

theorem WellTyped.proper_identity {s : Shape} (hs : s.WellTyped) : s.identity.Proper :=
  hs.identity_eq_key ▸ hs.proper_key

/-- A shape in which literals are of their kind, names are not repeated, and unions have members
that are not unions. -/
inductive Regular : Shape → Prop
  | null : Regular .null
  | primitive {kind : Kind} {l : Option Literal} (hkind : ∀ m ∈ l, m.kind = kind) :
      Regular (.primitive kind l)
  | array {s : Shape} (hs : Regular s) : Regular (.array s)
  | object {fs : List (Field Shape)} (hnames : (fs.map (·.name)).Nodup)
      (hfs : ∀ f ∈ fs, Regular f.content) : Regular (.object fs)
  | union {ms : List Shape} (hne : ms ≠ []) (hflat : ∀ m ∈ ms, m.isUnion = false)
      (hms : ∀ m ∈ ms, Regular m) : Regular (.union ms)

theorem Regular.wellTyped {s : Shape} (hs : s.Regular) : s.WellTyped := by
  induction hs with
  | null => exact .null
  | primitive hkind => exact .primitive hkind
  | array _ ih => exact .array ih
  | object hnames _ ih => exact .object hnames ih
  | union _ _ _ ih => exact .union ih

theorem regular_bare (kind : Kind) : Regular (.primitive kind none) :=
  .primitive fun _ h => by cases h

theorem regular_unknown : Regular unknown :=
  regular_bare .string

/-- The identities of several shapes. -/
def classes (shapes : List Shape) : Finset Key :=
  (shapes.map identity).toFinset

theorem mem_classes {shapes : List Shape} {k : Key} :
    k ∈ classes shapes ↔ ∃ s ∈ shapes, s.identity = k := by
  simp [classes]

theorem identity_mem_classes {shapes : List Shape} {s : Shape} (hs : s ∈ shapes) :
    s.identity ∈ classes shapes :=
  mem_classes.mpr ⟨s, hs, rfl⟩

@[simp]
theorem classes_nil : classes [] = ∅ := rfl

@[simp]
theorem classes_cons (s : Shape) (shapes : List Shape) :
    classes (s :: shapes) = insert s.identity (classes shapes) := by
  simp [classes]

@[simp]
theorem classes_append (xs ys : List Shape) : classes (xs ++ ys) = classes xs ∪ classes ys := by
  simp [classes]

@[simp]
theorem classes_distinct (shapes : List Shape) : classes (distinct shapes) = classes shapes := by
  ext k
  rw [classes, classes, List.mem_toFinset, List.mem_toFinset, distinct]
  exact mem_map_distinctOn identity

theorem length_distinct (shapes : List Shape) :
    (distinct shapes).length = (classes shapes).card := by
  have hnodup : ((distinct shapes).map identity).Nodup := nodup_map_distinctOn identity shapes
  rw [← classes_distinct, classes, List.toFinset_card_of_nodup hnodup, List.length_map]

theorem mem_of_mem_distinct {s : Shape} {shapes : List Shape} (h : s ∈ distinct shapes) :
    s ∈ shapes :=
  mem_of_mem_distinctOn identity h

theorem classes_eq_empty_iff {shapes : List Shape} : classes shapes = ∅ ↔ shapes = [] := by
  rw [classes, List.toFinset_eq_empty_iff, List.map_eq_nil_iff]

theorem Regular.of_mem {ms : List Shape} (h : (Shape.union ms).Regular) {m : Shape}
    (hm : m ∈ ms) : m.Regular := by
  cases h with
  | union _ _ hms => exact hms m hm

theorem Regular.names_nodup {fs : List (Field Shape)} (h : (Shape.object fs).Regular) :
    (fs.map (·.name)).Nodup := by
  cases h with
  | object hnames _ => exact hnames

theorem Regular.content {fs : List (Field Shape)} (h : (Shape.object fs).Regular)
    {f : Field Shape} (hf : f ∈ fs) : f.content.Regular := by
  cases h with
  | object _ hfs => exact hfs f hf

theorem fieldsWhole_iff (fs : List (Field Shape)) :
    fieldsWhole fs = true ↔ ∀ f ∈ fs, f.content.isWhole = true := by
  induction fs with
  | nil => simp [fieldsWhole]
  | cons f fs ih => simp [fieldsWhole, ih]

theorem allWhole_iff (shapes : List Shape) :
    allWhole shapes = true ↔ ∀ s ∈ shapes, s.isWhole = true := by
  induction shapes with
  | nil => simp [allWhole]
  | cons s rest ih => simp [allWhole, ih]

theorem WellTyped.isWhole {s : Shape} (hs : s.WellTyped) : s.isWhole = true := by
  induction hs with
  | null => rfl
  | primitive _ => rfl
  | array _ ih => exact ih
  | object _ _ ih => exact (fieldsWhole_iff _).mpr ih
  | union _ ih => exact (allWhole_iff _).mpr ih

theorem Regular.isWhole {s : Shape} (hs : s.Regular) : s.isWhole = true :=
  hs.wellTyped.isWhole

section Unions

variable {ms ns : List Shape}

theorem WellTyped.of_mem (h : (Shape.union ms).WellTyped) {m : Shape} (hm : m ∈ ms) :
    m.WellTyped := by
  cases h with
  | union hms => exact hms m hm

theorem WellTyped.proper_identities (h : (Shape.union ms).WellTyped) :
    ∀ k ∈ ms.map identity, k.Proper := by
  intro k hk
  obtain ⟨m, hm, rfl⟩ := List.mem_map.mp hk
  exact (h.of_mem hm).proper_identity

theorem WellTyped.identity_union (h : (Shape.union ms).WellTyped) :
    (Shape.union ms).identity = Key.union (Key.arrange (ms.map identity)) := by
  rw [h.identity_eq_key, key, keys_eq_map]
  congr 2
  exact List.map_congr_left fun m hm => (h.of_mem hm).identity_eq_key.symm

/-- Unions are the same when the same structures occur among their members. -/
theorem WellTyped.identity_union_eq_iff (hms : (Shape.union ms).WellTyped)
    (hns : (Shape.union ns).WellTyped) :
    (Shape.union ms).identity = (Shape.union ns).identity ↔ classes ms = classes ns := by
  rw [hms.identity_union, hns.identity_union, Key.union.injEq,
    Key.arrange_eq_iff hms.proper_identities hns.proper_identities, classes, classes,
    Finset.ext_iff]
  simp only [List.mem_toFinset]

theorem identity_union_eq_iff (hms : (union ms).Regular) (hns : (union ns).Regular) :
    (union ms).identity = (union ns).identity ↔ classes ms = classes ns :=
  hms.wellTyped.identity_union_eq_iff hns.wellTyped

end Unions

/-- A field of an object has its like in every object that is the same. -/
theorem exists_field_of_identity_eq {fs gs : List (Field Shape)}
    (h : (object fs).identity = (object gs).identity) {f : Field Shape} (hf : f ∈ fs) :
    ∃ g ∈ gs, g.map identity = f.map identity := by
  rw [identity_object, identity_object, Key.object.injEq] at h
  have hmem : f.map identity ∈ sortFields (gs.map (Field.map identity)) := by
    rw [← h, mem_sortFields]
    exact List.mem_map_of_mem hf
  exact List.mem_map.mp (mem_sortFields.mp hmem)

theorem exists_content_of_identity_eq {fs gs : List (Field Shape)}
    (h : (object fs).identity = (object gs).identity) {f : Field Shape} (hf : f ∈ fs) :
    ∃ g ∈ gs, f.content.identity = g.content.identity := by
  obtain ⟨g, hg, hgf⟩ := exists_field_of_identity_eq h hf
  exact ⟨g, hg, congrArg (fun x : Field Key => x.content) hgf.symm⟩

/-- Objects are the same when they have the same under each name. -/
theorem identity_object_eq_iff {fs gs : List (Field Shape)} (hfs : (fs.map (·.name)).Nodup)
    (hgs : (gs.map (·.name)).Nodup) :
    (object fs).identity = (object gs).identity ↔
      ∀ name, (entry name fs).map (Field.map identity) = (entry name gs).map (Field.map identity) := by
  rw [identity_object, identity_object, Key.object.injEq, sortFields_map_eq_iff identity hfs hgs]

end Shape

end TypeSketch
