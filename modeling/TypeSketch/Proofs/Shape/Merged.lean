import TypeSketch.Proofs.Shape.Identity

/-!
# Merging regular shapes

Merging may fail on nested unions and has to be read through its errors.  On regular shapes it
never fails: `merged` and `mergedFields` are its results, and they are regular again.  Main
statements:

* `merge_eq` and `mergeFields_eq`: merging yields these results;
* `merged_of_single` and `merged_of_several`: a single structure stays as it is, several are
  blended part by part.
-/

namespace TypeSketch.Shape

/-- The shape to which competing shapes are merged. -/
def merged (threshold : Nat) (shapes : List Shape) : Shape :=
  (merge threshold shapes).toOption.getD .hole

/-- The shape of the contents that several objects have under one name. -/
def position (threshold : Nat) (contents : List Shape) : Shape :=
  match distinct contents with
  | [] => unknown
  | [s] => s
  | s :: t :: rest => merged threshold (s :: t :: rest)

def contentsNamed (name : String) (bodies : List (List (Field Shape))) : List Shape :=
  (fieldsNamed name bodies).map (·.content)

/-- Whether some object lacks the name or has an optional field there. -/
def isOptionalIn (bodies : List (List (Field Shape))) (name : String) : Bool :=
  (fieldsNamed name bodies).length < bodies.length || (fieldsNamed name bodies).any (·.isOptional)

/-- The field of the given name in the merged object. -/
def mergedField (threshold : Nat) (bodies : List (List (Field Shape))) (name : String) :
    Field Shape :=
  ⟨name, position threshold (contentsNamed name bodies), isOptionalIn bodies name⟩

def mergedFields (threshold : Nat) (bodies : List (List (Field Shape))) : List (Field Shape) :=
  (fieldNames bodies).map (mergedField threshold bodies)

/-- The bodies of the objects among the shapes. -/
def bodiesOf (shapes : List Shape) : List (List (Field Shape)) :=
  (Parts.ofShapes shapes).objects

/-- What stands side by side once the parts of the same kind have been merged. -/
def pieces (threshold : Nat) (flat : List Shape) : List Shape :=
  Kind.all.flatMap (fun kind => widen threshold kind ((Parts.ofShapes flat).occurrences kind)) ++
    (if bodiesOf flat = [] then [] else [.object (mergedFields threshold (bodiesOf flat))]) ++
    (Parts.ofShapes flat).arrays ++
    (if (Parts.ofShapes flat).hasNull then [.null] else [])

/-- The union of the parts of several shapes. -/
def blend (threshold : Nat) (flat : List Shape) : Shape :=
  unite (pieces threshold flat)

section Lists

theorem mapM_eq_ok {α β ε : Type} {f : α → Except ε β} {g : α → β} :
    ∀ {xs : List α}, (∀ x ∈ xs, f x = .ok (g x)) → xs.mapM f = .ok (xs.map g)
  | [], _ => rfl
  | x :: xs, h => by
      rw [List.mapM_cons, h x List.mem_cons_self,
        mapM_eq_ok fun y hy => h y (List.mem_cons_of_mem x hy)]
      rfl

theorem fieldsNamed_eq (name : String) (bodies : List (List (Field Shape))) :
    fieldsNamed name bodies = bodies.filterMap (entry name) := rfl

theorem mem_fieldsNamed {name : String} {bodies : List (List (Field Shape))} {f : Field Shape} :
    f ∈ fieldsNamed name bodies ↔ ∃ fs ∈ bodies, entry name fs = some f := by
  rw [fieldsNamed_eq, List.mem_filterMap]

theorem mem_contentsNamed {name : String} {bodies : List (List (Field Shape))} {s : Shape} :
    s ∈ contentsNamed name bodies ↔ ∃ fs ∈ bodies, ∃ f, entry name fs = some f ∧ f.content = s := by
  rw [contentsNamed, List.mem_map]
  constructor
  · rintro ⟨f, hf, rfl⟩
    obtain ⟨fs, hfs, hentry⟩ := mem_fieldsNamed.mp hf
    exact ⟨fs, hfs, f, hentry, rfl⟩
  · rintro ⟨fs, hfs, f, hentry, rfl⟩
    exact ⟨f, mem_fieldsNamed.mpr ⟨fs, hfs, hentry⟩, rfl⟩

theorem mem_fieldNames {name : String} {bodies : List (List (Field Shape))} :
    name ∈ fieldNames bodies ↔ ∃ fs ∈ bodies, name ∈ fs.map (·.name) := by
  rw [fieldNames, mem_distinctOn_id, List.mem_flatMap]

theorem nodup_fieldNames (bodies : List (List (Field Shape))) : (fieldNames bodies).Nodup :=
  nodup_distinctOn_id _

theorem contentsNamed_eq_nil_iff {name : String} {bodies : List (List (Field Shape))} :
    contentsNamed name bodies = [] ↔ name ∉ fieldNames bodies := by
  rw [contentsNamed, List.map_eq_nil_iff, fieldsNamed_eq, List.filterMap_eq_nil_iff,
    mem_fieldNames]
  simp only [entry_eq_none_iff, not_exists, not_and]

theorem names_mergedFields (t : Nat) (bodies : List (List (Field Shape))) :
    (mergedFields t bodies).map (·.name) = fieldNames bodies := by
  rw [mergedFields, List.map_map]
  exact List.map_id _

/-- A merged object has a field under each name that some object has. -/
theorem entry_mergedFields (t : Nat) (bodies : List (List (Field Shape))) (name : String) :
    entry name (mergedFields t bodies) =
      if contentsNamed name bodies = [] then none else some (mergedField t bodies name) := by
  rw [mergedFields, entry_map_names (fun _ => rfl) (nodup_fieldNames bodies)]
  simp only [contentsNamed_eq_nil_iff, ite_not]

/-- An object merged with nothing else keeps its fields. -/
theorem mergedFields_singleton (t : Nat) {fs : List (Field Shape)}
    (hnames : (fs.map (·.name)).Nodup) : mergedFields t [fs] = fs := by
  have hfields : fieldNames [fs] = fs.map (·.name) := by
    rw [fieldNames, List.flatMap_singleton, distinctOn_eq_self]
    rwa [List.map_id]
  rw [mergedFields, hfields, List.map_map]
  conv => rhs; rw [← List.map_id fs]
  apply List.map_congr_left
  intro f hf
  have hentry : entry f.name fs = some f := (entry_eq_some_iff hnames).mpr ⟨hf, rfl⟩
  have hfound : fieldsNamed f.name [fs] = [f] := by
    rw [fieldsNamed_eq]
    simp [hentry]
  show mergedField t [fs] f.name = f
  rw [mergedField, contentsNamed, isOptionalIn, hfound]
  simp [position, distinct, distinctOn]

end Lists

section Parts

variable {F : List Shape}

theorem bodiesOf_eq_filterMap (F : List Shape) : bodiesOf F = F.filterMap fields? := by
  induction F with
  | nil => rfl
  | cons s F ih =>
      simp only [bodiesOf, Parts.ofShapes, List.foldr_cons, List.filterMap_cons] at ih ⊢
      cases s <;> simp [Parts.add, fields?, ih]

theorem bodiesOf_append (F G : List Shape) : bodiesOf (F ++ G) = bodiesOf F ++ bodiesOf G := by
  rw [bodiesOf_eq_filterMap, bodiesOf_eq_filterMap, bodiesOf_eq_filterMap, List.filterMap_append]

theorem mem_bodiesOf {fs : List (Field Shape)} : fs ∈ bodiesOf F ↔ object fs ∈ F := by
  rw [bodiesOf_eq_filterMap, List.mem_filterMap]
  constructor
  · rintro ⟨s, hs, hfields⟩
    cases s <;> cases hfields
    exact hs
  · exact fun h => ⟨_, h, rfl⟩

theorem mem_arrays {s : Shape} :
    s ∈ (Parts.ofShapes F).arrays ↔ s ∈ F ∧ ∃ item, s = array item := by
  induction F with
  | nil => simp [Parts.ofShapes]
  | cons r F ih =>
      simp only [Parts.ofShapes, List.foldr_cons, List.mem_cons] at ih ⊢
      cases r <;> simp [Parts.add, ih] <;> grind

theorem hasNull_iff : (Parts.ofShapes F).hasNull = true ↔ null ∈ F := by
  induction F with
  | nil => simp [Parts.ofShapes]
  | cons s F ih =>
      simp only [Parts.ofShapes, List.foldr_cons] at ih ⊢
      cases s <;> simp [Parts.add, ih]

theorem mem_occurrences {kind : Kind} {l : Option Literal} :
    l ∈ (Parts.ofShapes F).occurrences kind ↔ primitive kind l ∈ F := by
  have hscalars : ∀ k, (k, l) ∈ (Parts.ofShapes F).scalars ↔ primitive k l ∈ F := by
    intro k
    induction F with
    | nil => simp [Parts.ofShapes]
    | cons s F ih =>
        simp only [Parts.ofShapes, List.foldr_cons] at ih ⊢
        cases s <;> simp [Parts.add, ih]
  rw [← hscalars, Parts.occurrences, List.mem_filterMap]
  constructor
  · rintro ⟨⟨k, m⟩, hmem, h⟩
    split at h
    · rename_i hkind
      cases h
      exact hkind ▸ hmem
    · cases h
  · intro hmem
    exact ⟨(kind, l), hmem, if_pos rfl⟩

end Parts

section Flat

theorem mem_flatten {shapes : List Shape} {s : Shape} :
    s ∈ flatten shapes ↔ ∃ u ∈ shapes, s ∈ u.members := by
  rw [flatten, List.mem_flatMap]

theorem flatten_append (xs ys : List Shape) : flatten (xs ++ ys) = flatten xs ++ flatten ys :=
  List.flatMap_append

theorem flatten_singleton (s : Shape) : flatten [s] = s.members := by
  rw [flatten, List.flatMap_singleton]

theorem regular_distinct {shapes : List Shape} (h : ∀ s ∈ shapes, s.Regular) :
    ∀ s ∈ distinct shapes, s.Regular :=
  fun s hs => h s (mem_of_mem_distinct hs)

theorem flatten_eq_self : ∀ {shapes : List Shape}, (∀ s ∈ shapes, s.isUnion = false) →
    flatten shapes = shapes
  | [], _ => rfl
  | s :: shapes, h => by
      have ih := flatten_eq_self fun r hr => h r (List.mem_cons_of_mem s hr)
      rw [flatten, List.flatMap_cons, members_of_isUnion_eq_false (h s List.mem_cons_self)]
      rw [flatten] at ih
      rw [ih]
      rfl

/-- The members of regular shapes are regular and no unions. -/
theorem Regular.of_mem_members {s m : Shape} (hs : s.Regular) (hm : m ∈ s.members) :
    m.Regular ∧ m.isUnion = false := by
  cases hs with
  | union _ hflat hms => exact ⟨hms m hm, hflat m hm⟩
  | null => cases List.mem_singleton.mp hm; exact ⟨.null, rfl⟩
  | primitive h => cases List.mem_singleton.mp hm; exact ⟨.primitive h, rfl⟩
  | array h => cases List.mem_singleton.mp hm; exact ⟨.array h, rfl⟩
  | object hnames h => cases List.mem_singleton.mp hm; exact ⟨.object hnames h, rfl⟩

/-- Regular shapes none of which is a union. -/
structure Flat (shapes : List Shape) : Prop where
  regular : ∀ s ∈ shapes, s.Regular
  noUnion : ∀ s ∈ shapes, s.isUnion = false

theorem flat_flatten {shapes : List Shape} (h : ∀ s ∈ shapes, s.Regular) :
    Flat (flatten shapes) := by
  constructor
  · intro s hs
    obtain ⟨u, hu, hsu⟩ := mem_flatten.mp hs
    exact ((h u hu).of_mem_members hsu).1
  · intro s hs
    obtain ⟨u, hu, hsu⟩ := mem_flatten.mp hs
    exact ((h u hu).of_mem_members hsu).2

theorem Flat.distinct {shapes : List Shape} (h : Flat shapes) : Flat (distinct shapes) :=
  ⟨regular_distinct h.regular, fun s hs => h.noUnion s (mem_of_mem_distinct hs)⟩

theorem flat_nil : Flat [] := by
  constructor <;> intro s hs <;> cases hs

theorem flat_singleton {s : Shape} (hs : s.Regular) (hunion : s.isUnion = false) : Flat [s] where
  regular := List.forall_mem_singleton.mpr hs
  noUnion := List.forall_mem_singleton.mpr hunion

theorem Flat.append {xs ys : List Shape} (hxs : Flat xs) (hys : Flat ys) : Flat (xs ++ ys) where
  regular := List.forall_mem_append.mpr ⟨hxs.regular, hys.regular⟩
  noUnion := List.forall_mem_append.mpr ⟨hxs.noUnion, hys.noUnion⟩

theorem flat_map {α : Type} {xs : List α} {shape : α → Shape}
    (h : ∀ x ∈ xs, (shape x).Regular ∧ (shape x).isUnion = false) : Flat (xs.map shape) where
  regular := List.forall_mem_map.mpr fun x hx => (h x hx).1
  noUnion := List.forall_mem_map.mpr fun x hx => (h x hx).2

theorem flat_flatMap {α : Type} {xs : List α} {shapes : α → List Shape}
    (h : ∀ x ∈ xs, Flat (shapes x)) : Flat (xs.flatMap shapes) := by
  constructor
  · intro s hs
    obtain ⟨x, hx, hs⟩ := List.mem_flatMap.mp hs
    exact (h x hx).regular s hs
  · intro s hs
    obtain ⟨x, hx, hs⟩ := List.mem_flatMap.mp hs
    exact (h x hx).noUnion s hs

theorem Flat.bodies {F : List Shape} (h : Flat F) :
    ∀ fs ∈ bodiesOf F, (object fs).Regular := fun _ hfs =>
  h.regular _ (mem_bodiesOf.mp hfs)

theorem regular_contentsNamed {bodies : List (List (Field Shape))}
    (h : ∀ fs ∈ bodies, (object fs).Regular) (name : String) :
    ∀ s ∈ contentsNamed name bodies, s.Regular := by
  intro s hs
  obtain ⟨fs, hfs, f, hentry, rfl⟩ := mem_contentsNamed.mp hs
  exact (h fs hfs).content (mem_of_entry_eq_some hentry).1

end Flat

section Total

variable {t : Nat}

/-- The fields of objects merge as soon as their contents do. -/
theorem mergeFields_of_merge {bodies : List (List (Field Shape))}
    (hnames : ∀ fs ∈ bodies, (fs.map (·.name)).Nodup)
    (hmerge : ∀ name, 2 ≤ (distinct (contentsNamed name bodies)).length →
      ∃ s, merge t (distinct (contentsNamed name bodies)) = .ok s) :
    mergeFields t bodies = .ok (mergedFields t bodies) := by
  rw [mergeFields]
  split
  · -- at most one object: nothing is merged, and `mergedFields` changes nothing either
    rename_i hlen
    match bodies with
    | [] => rfl
    | [fs] => rw [mergedFields_singleton t (hnames fs List.mem_cons_self)]; rfl
    | fs :: gs :: rest => simp at hlen
  · apply mapM_eq_ok
    intro name _
    have hm := hmerge name
    simp only [mergedField, isOptionalIn, position]
    rw [contentsNamed] at *
    -- no content, a single one, or several that have to be merged
    split <;> rename_i h
    · rw [h]
      rfl
    · rw [h]
      rfl
    · rw [h] at hm ⊢
      obtain ⟨s, hs⟩ := hm (by simp)
      simp only [hs, merged]
      rfl

theorem merge_of_single {shapes : List Shape} {s : Shape}
    (h : distinct (flatten shapes) = [s]) : merge t shapes = .ok s := by
  rw [merge]
  split
  · rename_i s' h'
    rw [h] at h'
    cases h'
    rfl
  · rename_i hne
    exact absurd h (hne s)

theorem merge_of_several {shapes : List Shape} (hreg : ∀ s ∈ shapes, s.Regular)
    (h : (distinct (flatten shapes)).length ≠ 1)
    (hfields : mergeFields t (bodiesOf (distinct (flatten shapes))) =
      .ok (mergedFields t (bodiesOf (distinct (flatten shapes))))) :
    merge t shapes = .ok (blend t (distinct (flatten shapes))) := by
  rw [merge]
  split
  · rename_i s hs
    rw [hs] at h
    exact absurd rfl h
  · -- regular unions are not nested, so that flattening has left no union
    have hflat : (distinct (flatten shapes)).any isUnion = false := by
      rw [List.any_eq_false]
      intro s hs
      rw [(flat_flatten hreg).distinct.noUnion s hs]
      exact Bool.false_ne_true
    rw [hflat]
    rw [bodiesOf] at hfields
    simp only [Bool.false_eq_true, if_false, hfields]
    rfl

theorem totalSize_contentsNamed_le (name : String) (shapes : List Shape) :
    totalSize (contentsNamed name (bodiesOf shapes)) +
      (contentsNamed name (bodiesOf shapes)).length ≤ totalSize shapes := by
  have hfields := totalSize_fieldsNamed_le name (bodiesOf shapes)
  have hbodies := bodiesSize_objects_le shapes
  rw [contentsNamed, List.length_map]
  rw [bodiesOf] at *
  omega

/-- The contents of a field are smaller than what they are fields of. -/
theorem totalSize_distinct_contentsNamed_lt {name : String} {F : List Shape}
    (h : contentsNamed name (bodiesOf F) ≠ []) :
    totalSize (distinct (contentsNamed name (bodiesOf F))) < totalSize F := by
  have hdistinct := totalSize_distinct_le (contentsNamed name (bodiesOf F))
  have hcontents := totalSize_contentsNamed_le name F
  have hpos := List.length_pos_iff.mpr h
  omega

theorem totalSize_distinct_flatten_le (shapes : List Shape) :
    totalSize (distinct (flatten shapes)) ≤ totalSize shapes :=
  (totalSize_distinct_le _).trans (totalSize_flatten_le shapes)

/-- Induction along the merging of regular shapes: what holds of the contents that meet under each
name holds of the shapes. -/
theorem merging_induction {P : List Shape → Prop}
    (step : ∀ shapes, (∀ s ∈ shapes, s.Regular) →
      (∀ name, contentsNamed name (bodiesOf (distinct (flatten shapes))) ≠ [] →
        P (distinct (contentsNamed name (bodiesOf (distinct (flatten shapes)))))) → P shapes)
    {shapes : List Shape} (hreg : ∀ s ∈ shapes, s.Regular) : P shapes := by
  apply step shapes hreg
  intro name hname
  have hlt := totalSize_distinct_contentsNamed_lt hname
  have hle := totalSize_distinct_flatten_le shapes
  have hcontents := regular_contentsNamed (flat_flatten hreg).distinct.bodies name
  exact merging_induction step (regular_distinct hcontents)
termination_by totalSize shapes

/-- Merging regular shapes never fails. -/
theorem exists_merge_eq (t : Nat) {shapes : List Shape} (hreg : ∀ s ∈ shapes, s.Regular) :
    ∃ s, merge t shapes = .ok s := by
  refine merging_induction (P := fun shapes => ∃ s, merge t shapes = .ok s) ?_ hreg
  intro shapes hreg ih
  by_cases hone : (distinct (flatten shapes)).length = 1
  · obtain ⟨s, hs⟩ := List.length_eq_one_iff.mp hone
    exact ⟨s, merge_of_single hs⟩
  · have hflat := (flat_flatten hreg).distinct
    refine ⟨_, merge_of_several hreg hone (mergeFields_of_merge ?_ ?_)⟩
    · exact fun fs hfs => (hflat.bodies fs hfs).names_nodup
    · intro name htwo
      apply ih name
      intro h
      rw [h] at htwo
      exact absurd htwo (by decide)

theorem merge_eq {shapes : List Shape} (hreg : ∀ s ∈ shapes, s.Regular) :
    merge t shapes = .ok (merged t shapes) := by
  obtain ⟨s, hs⟩ := exists_merge_eq t hreg
  rw [merged, hs]
  rfl

theorem mergeFields_eq {bodies : List (List (Field Shape))}
    (hreg : ∀ fs ∈ bodies, (object fs).Regular) :
    mergeFields t bodies = .ok (mergedFields t bodies) := by
  apply mergeFields_of_merge
  · exact fun fs hfs => (hreg fs hfs).names_nodup
  · intro name _
    exact ⟨_, merge_eq (regular_distinct (regular_contentsNamed hreg name))⟩

/-- Competing shapes of a single structure stay as they are. -/
theorem merged_of_single {shapes : List Shape} {s : Shape}
    (h : distinct (flatten shapes) = [s]) : merged t shapes = s := by
  rw [merged, merge_of_single h]
  rfl

/-- Shapes of several structures are merged part by part. -/
theorem merged_of_several {shapes : List Shape} (hreg : ∀ s ∈ shapes, s.Regular)
    (h : (distinct (flatten shapes)).length ≠ 1) :
    merged t shapes = blend t (distinct (flatten shapes)) := by
  have hflat := (flat_flatten hreg).distinct
  rw [merged, merge_of_several hreg h (mergeFields_eq hflat.bodies)]
  rfl

end Total

section Operations

variable {t : Nat}

theorem allWhole_of_regular {shapes : List Shape} (h : ∀ s ∈ shapes, s.Regular) :
    allWhole shapes = true :=
  (allWhole_iff _).mpr fun s hs => (h s hs).isWhole

theorem equal?_of_identity_eq {a b : Shape} (ha : a.Regular) (hb : b.Regular)
    (h : a.identity = b.identity) : a.equal? b = .ok true := by
  rw [equal?, ha.isWhole, hb.isWhole, same, decide_eq_true h]
  rfl

theorem consolidate_eq {shapes : List Shape} (hreg : ∀ s ∈ shapes, s.Regular) :
    consolidate t shapes = .ok (merged t shapes) := by
  rw [consolidate, allWhole_of_regular hreg, if_pos rfl, merge_eq hreg]

/-- Members may be taken out of their unions before everything is united. -/
theorem unite_flatten {shapes : List Shape} (hreg : ∀ s ∈ shapes, s.Regular) :
    unite (flatten shapes) = unite shapes := by
  rw [unite, unite, flatten_eq_self (flat_flatten hreg).noUnion]

theorem collect_eq {shapes : List Shape} (hreg : ∀ s ∈ shapes, s.Regular) :
    collect shapes = .ok (unite shapes) := by
  rw [collect, allWhole_of_regular hreg, if_pos rfl]

theorem exists_bodies : ∀ {shapes : List Shape}, (∀ s ∈ shapes, s.Regular ∧ ∃ fs, s = object fs) →
    ∃ bodies : List (List (Field Shape)),
      shapes = bodies.map object ∧ ∀ fs ∈ bodies, (object fs).Regular
  | [], _ => ⟨[], rfl, fun _ h => by cases h⟩
  | s :: rest, h => by
      obtain ⟨hs, fs, rfl⟩ := h s List.mem_cons_self
      obtain ⟨bodies, rfl, hbodies⟩ := exists_bodies fun r hr => h r (List.mem_cons_of_mem _ hr)
      refine ⟨fs :: bodies, rfl, fun gs hgs => ?_⟩
      rcases List.mem_cons.mp hgs with rfl | hgs
      · exact hs
      · exact hbodies gs hgs

theorem mapM_fields?_objects (bodies : List (List (Field Shape))) :
    (bodies.map object).mapM fields? = some bodies := by
  induction bodies with
  | nil => rfl
  | cons fs rest ih =>
      rw [List.map_cons, List.mapM_cons, ih]
      rfl

/-- Also an object that stands alone is as if merged. -/
theorem mergeObjects_eq {bodies : List (List (Field Shape))}
    (hreg : ∀ fs ∈ bodies, (object fs).Regular) :
    mergeObjects t (bodies.map object) = .ok (object (mergedFields t bodies)) := by
  match bodies with
  | [] => rfl
  | [fs] =>
      -- a single object is returned as it is
      rw [mergedFields_singleton t (hreg fs List.mem_cons_self).names_nodup]
      rfl
  | fs :: gs :: rest =>
      have hwhole : allWhole ((fs :: gs :: rest).map object) = true := by
        apply allWhole_of_regular
        intro s hs
        obtain ⟨hs', hmem, rfl⟩ := List.mem_map.mp hs
        exact hreg hs' hmem
      have hfields := mapM_fields?_objects (fs :: gs :: rest)
      simp only [List.map_cons] at hwhole hfields ⊢
      rw [mergeObjects]
      · rw [hfields]
        simp only [hwhole, if_true, mergeFields_eq hreg]
        rfl
      · intro h
        cases h
      · intro s h
        cases h

end Operations

end TypeSketch.Shape
