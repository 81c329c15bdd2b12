import TypeSketch.Proofs.Shape.Congruence
import TypeSketch.Proofs.Shape.Within

/-!
# Merging and the order of fields

The order of the fields in what is merged is no more than the order of the fields in the result.
Main statements, for regular shapes:

* `sorted_merged`: shapes may be sorted before or after they are merged;
* `sorted_blend_congr`: shapes that are sorted to the same are blended to shapes that are.
-/

namespace TypeSketch.Shape

variable {t : Nat}

section Objects

/-- The fields of a sorted object. -/
def sortedBody (fs : List (Field Shape)) : List (Field Shape) :=
  (sortFields fs).map (Field.map sorted)

theorem sorted_object_eq (fs : List (Field Shape)) : (object fs).sorted = object (sortedBody fs) :=
  sorted_object fs

theorem entry_sortedBody {fs : List (Field Shape)} (hnames : (fs.map (·.name)).Nodup)
    (name : String) : entry name (sortedBody fs) = (entry name fs).map (Field.map sorted) := by
  have hentry := (sortFields_eq_iff (nodup_names_sortFields hnames) hnames).mp
    (sortFields_sortFields fs) name
  rw [sortedBody, entry_map name (Field.map_name sorted), hentry]

/-- Objects are sorted to the same when they have the same under each name, once it is sorted. -/
theorem sorted_object_eq_iff {fs gs : List (Field Shape)} (hfs : (fs.map (·.name)).Nodup)
    (hgs : (gs.map (·.name)).Nodup) :
    (object fs).sorted = (object gs).sorted ↔
      ∀ name, (entry name fs).map (Field.map sorted) = (entry name gs).map (Field.map sorted) := by
  rw [sorted_object, sorted_object, Shape.object.injEq, ← sortFields_map (Field.map_name sorted),
    ← sortFields_map (Field.map_name sorted), sortFields_map_eq_iff sorted hfs hgs]

/-- Sorting twice is sorting once. -/
theorem sorted_sorted {s : Shape} (hs : s.Regular) : s.sorted.sorted = s.sorted := by
  induction hs with
  | null => rfl
  | primitive _ => rfl
  | array _ ih => rw [sorted, sorted, ih]
  | @object fs hnames _ ih =>
      rw [sorted_object, sorted_object, sortFields_map (Field.map_name sorted), sortFields_sortFields,
        List.map_map]
      congr 1
      apply List.map_congr_left
      intro f hf
      have hcontent := ih f (mem_sortFields.mp hf)
      rw [Function.comp_apply, Field.map, Field.map, hcontent]
  | @union ms _ _ _ ih =>
      rw [sorted_union, sorted_union, List.map_map]
      congr 1
      exact List.map_congr_left ih

end Objects

section Lists

theorem members_sorted (s : Shape) : s.sorted.members = s.members.map sorted := by
  cases s with
  | union ms => rw [sorted_union]; rfl
  | _ => rfl

theorem flatten_map_sorted (shapes : List Shape) :
    flatten (shapes.map sorted) = (flatten shapes).map sorted := by
  rw [flatten, flatten, List.flatMap_map, List.map_flatMap]
  simp only [members_sorted]

theorem distinct_map_sorted (shapes : List Shape) :
    distinct (shapes.map sorted) = (distinct shapes).map sorted :=
  distinctOn_map fun s _ => identity_sorted s

theorem distinct_flatten_map_sorted (shapes : List Shape) :
    distinct (flatten (shapes.map sorted)) = (distinct (flatten shapes)).map sorted := by
  rw [flatten_map_sorted, distinct_map_sorted]

theorem sorted_unite (shapes : List Shape) :
    (unite shapes).sorted = unite (shapes.map sorted) := by
  rw [unite, unite, distinct_flatten_map_sorted]
  cases distinct (flatten shapes) with
  | nil => rfl
  | cons s others =>
      cases others with
      | nil => rfl
      | cons r rest => exact sorted_union _

theorem ofShapes_map_sorted (F : List Shape) :
    Parts.ofShapes (F.map sorted) =
      { Parts.ofShapes F with
        objects := (Parts.ofShapes F).objects.map sortedBody
        arrays := (Parts.ofShapes F).arrays.map sorted } := by
  induction F with
  | nil => rfl
  | cons s F ih =>
      simp only [Parts.ofShapes, List.map_cons, List.foldr_cons] at ih ⊢
      rw [ih]
      cases s with
      | object fs => rw [sorted_object_eq]; rfl
      | _ => rfl

theorem regular_map_sorted {shapes : List Shape} (hreg : ∀ s ∈ shapes, s.Regular) :
    ∀ s ∈ shapes.map sorted, s.Regular :=
  List.forall_mem_map.mpr fun s hs => regular_sorted (hreg s hs)

end Lists

section Merging

theorem fieldsNamed_map_sortedBody {bodies : List (List (Field Shape))}
    (hnames : ∀ fs ∈ bodies, (fs.map (·.name)).Nodup) (name : String) :
    fieldsNamed name (bodies.map sortedBody) =
      (fieldsNamed name bodies).map (Field.map sorted) := by
  rw [fieldsNamed_eq, fieldsNamed_eq, List.filterMap_map, List.map_filterMap]
  apply List.filterMap_congr
  intro fs hfs
  exact entry_sortedBody (hnames fs hfs) name

theorem contentsNamed_map_sortedBody {bodies : List (List (Field Shape))}
    (hnames : ∀ fs ∈ bodies, (fs.map (·.name)).Nodup) (name : String) :
    contentsNamed name (bodies.map sortedBody) = (contentsNamed name bodies).map sorted := by
  rw [contentsNamed, contentsNamed, fieldsNamed_map_sortedBody hnames, List.map_map, List.map_map]
  rfl

theorem isOptionalIn_map_sortedBody {bodies : List (List (Field Shape))}
    (hnames : ∀ fs ∈ bodies, (fs.map (·.name)).Nodup) (name : String) :
    isOptionalIn (bodies.map sortedBody) name = isOptionalIn bodies name := by
  rw [isOptionalIn, isOptionalIn, fieldsNamed_map_sortedBody hnames, List.length_map,
    List.length_map, List.any_map]
  rfl

/-- Merged objects are sorted to the same when their contents are. -/
theorem sorted_object_mergedFields_of {bodies : List (List (Field Shape))}
    (hreg : ∀ fs ∈ bodies, (object fs).Regular)
    (hposition : ∀ name, contentsNamed name bodies ≠ [] →
      (position t ((contentsNamed name bodies).map sorted)).sorted =
        (position t (contentsNamed name bodies)).sorted) :
    (object (mergedFields t (bodies.map sortedBody))).sorted =
      (object (mergedFields t bodies)).sorted := by
  have hnames : ∀ fs ∈ bodies, (fs.map (·.name)).Nodup := fun fs hfs => (hreg fs hfs).names_nodup
  rw [sorted_object_eq_iff]
  · intro name
    rw [entry_mergedFields, entry_mergedFields, contentsNamed_map_sortedBody hnames]
    by_cases hcontents : contentsNamed name bodies = []
    · rw [hcontents]
      rfl
    · rw [if_neg (mt List.map_eq_nil_iff.mp hcontents), if_neg hcontents]
      simp only [Option.map_some, mergedField, Field.map, contentsNamed_map_sortedBody hnames,
        isOptionalIn_map_sortedBody hnames, hposition name hcontents]
  · rw [names_mergedFields]
    exact nodup_fieldNames _
  · rw [names_mergedFields]
    exact nodup_fieldNames bodies

theorem sorted_position_of {contents : List Shape} (hreg : ∀ s ∈ contents, s.Regular)
    (hmerged : distinct contents ≠ [] →
      (merged t ((distinct contents).map sorted)).sorted = (merged t (distinct contents)).sorted) :
    (position t (contents.map sorted)).sorted = (position t contents).sorted := by
  have hdistinct := regular_distinct hreg
  unfold position
  rw [distinct_map_sorted]
  match hd : distinct contents with
  | [] => rfl
  | [s] => exact sorted_sorted (hdistinct s (by simp [hd]))
  | s :: r :: rest =>
      rw [hd] at hmerged
      exact hmerged (List.cons_ne_nil _ _)

/-- What is blended is sorted to the same when its merged object is. -/
theorem sorted_blend_of {F : List Shape} (hF : Flat F)
    (hobject : (object (mergedFields t ((bodiesOf F).map sortedBody))).sorted =
      (object (mergedFields t (bodiesOf F))).sorted) :
    (blend t (F.map sorted)).sorted = (blend t F).sorted := by
  have harrays : ((Parts.ofShapes F).arrays.map sorted).map sorted =
      (Parts.ofShapes F).arrays.map sorted := by
    rw [List.map_map]
    apply List.map_congr_left
    intro s hs
    exact sorted_sorted (hF.regular s (mem_arrays.mp hs).1)
  -- primitives and null have no fields to be sorted
  have hpieces : (pieces t (F.map sorted)).map sorted = (pieces t F).map sorted := by
    have hbodies : bodiesOf (F.map sorted) = (bodiesOf F).map sortedBody := by
      rw [bodiesOf, ofShapes_map_sorted]
      rfl
    rw [pieces, pieces, hbodies, ofShapes_map_sorted]
    simp only [List.map_append, harrays]
    congr 3
    by_cases hnil : bodiesOf F = []
    · rw [hnil]
      rfl
    · rw [if_neg (mt List.map_eq_nil_iff.mp hnil), if_neg hnil, List.map_singleton,
        List.map_singleton, hobject]
  rw [blend, blend, sorted_unite, sorted_unite, hpieces]

/-- Shapes may be sorted before they are merged. -/
theorem sorted_merged {shapes : List Shape} (hreg : ∀ s ∈ shapes, s.Regular) :
    (merged t (shapes.map sorted)).sorted = (merged t shapes).sorted := by
  refine merging_induction (P := fun shapes =>
    (merged t (shapes.map sorted)).sorted = (merged t shapes).sorted) ?_ hreg
  intro shapes hreg ih
  have hflat := (flat_flatten hreg).distinct
  have hdistinct := distinct_flatten_map_sorted shapes
  by_cases hone : (distinct (flatten shapes)).length = 1
  · obtain ⟨s, hs⟩ := List.length_eq_one_iff.mp hone
    rw [hs] at hdistinct
    rw [merged_of_single hs, merged_of_single hdistinct]
    exact sorted_sorted (hflat.regular s (by simp [hs]))
  · have hseveral : (distinct (flatten (shapes.map sorted))).length ≠ 1 := by
      rwa [hdistinct, List.length_map]
    rw [merged_of_several hreg hone, merged_of_several (regular_map_sorted hreg) hseveral,
      hdistinct]
    apply sorted_blend_of hflat
    apply sorted_object_mergedFields_of hflat.bodies
    intro name hname
    exact sorted_position_of (regular_contentsNamed hflat.bodies name) fun _ => ih name hname

theorem sorted_object_mergedFields {bodies : List (List (Field Shape))}
    (hreg : ∀ fs ∈ bodies, (object fs).Regular) :
    (object (mergedFields t (bodies.map sortedBody))).sorted =
      (object (mergedFields t bodies)).sorted := by
  apply sorted_object_mergedFields_of hreg
  intro name _
  have hcontents := regular_contentsNamed hreg name
  exact sorted_position_of hcontents fun _ => sorted_merged (regular_distinct hcontents)

theorem sorted_blend {F : List Shape} (hF : Flat F) :
    (blend t (F.map sorted)).sorted = (blend t F).sorted :=
  sorted_blend_of hF (sorted_object_mergedFields hF.bodies)

/-- Shapes that only differ in the order of fields are blended to shapes that do. -/
theorem sorted_blend_congr {F G : List Shape} (hF : Flat F) (hG : Flat G)
    (h : F.map sorted = G.map sorted) : (blend t F).sorted = (blend t G).sorted := by
  rw [← sorted_blend hF, h, sorted_blend hG]

end Merging

end TypeSketch.Shape
