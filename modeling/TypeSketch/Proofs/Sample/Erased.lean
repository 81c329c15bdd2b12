import TypeSketch.Proofs.Sample.Exactness
import TypeSketch.Proofs.Shape.Erased

/-!
# Inference without literals

With literals there are more different shapes to be merged, so that a run which tracks them and one
which does not take different ways.  They are compared on what is collected from the samples, where
both gather the same names and items.  Main statement: `erase_tracked`, tracking literals only
refines the shape.
-/

namespace TypeSketch.Sample

open Shape

variable {t : Nat} {V : List Sample}

/-- What is collected is not empty, and its members are no unions. -/
theorem flat_collected_of_ne_nil (t : Nat) (hne : V ≠ []) :
    Flat (collected t V) ∧ collected t V ≠ [] := by
  have hsound := regular_infer_and_identity t
  have hclasses := classes_collected (t := t) (V := V) (fun name h => (hsound _ h).2)
    fun items _ h => (hsound items h).2
  refine ⟨flat_collected (fun name h => (hsound _ h).1) fun items _ h => (hsound items h).1, ?_⟩
  rw [Ne, ← classes_eq_empty_iff, hclasses, classes_eq_empty_iff]
  apply pieces_ne_nil (flat_offers t V)
  rw [offers_eq_map]
  exact mt List.map_eq_nil_iff.mp hne

section Parts

theorem map_erase_literals {kind : Kind} (ls : List Literal) :
    (literals kind ls).map erase = ls.map fun _ => primitive kind none := by
  rw [literals, List.map_map]
  apply List.map_congr_left
  intro l _
  rw [Function.comp_apply, erase]

/-- The values of a kind leave its bare primitive, if there are any. -/
theorem classes_erase_primitivesIn (t : Nat) (kind : Kind) (V : List Sample) :
    classes ((primitivesIn t kind V).map erase) = classes (primitivesIn 0 kind V) := by
  have hbare : [primitive kind none].map erase = [primitive kind none] := by
    rw [List.map_singleton, erase]
  have hzero : ¬ (0 < 0 ∧ (valuesIn kind V).length ≤ 0) := fun h => Nat.lt_irrefl 0 h.1
  rw [primitivesIn, primitivesIn, if_neg hzero]
  split
  · rw [hbare]
  · split
    · rfl
    · rename_i hvalues
      split
      · obtain ⟨l, ls, hls⟩ := List.exists_cons_of_ne_nil hvalues
        rw [map_erase_literals, hls]
        ext k
        simp [mem_classes, eq_comm]
      · rw [hbare]

/-- The parts that are collected have the same structure without their literals, if the values of
each name and the items of each array have it. -/
theorem classes_erase_collected
    (hvalues : ∀ name, valuesUnder name (objectsIn V) ≠ [] →
      (infer t (valuesUnder name (objectsIn V))).erase.identity =
        (infer 0 (valuesUnder name (objectsIn V))).identity)
    (hitems : ∀ items ∈ listsIn V, items ≠ [] →
      (infer t items).erase.identity = (infer 0 items).identity) :
    classes ((collected t V).map erase) = classes (collected 0 V) := by
  have hprimitives : classes ((Kind.all.flatMap fun kind => primitivesIn t kind V).map erase) =
      classes (Kind.all.flatMap fun kind => primitivesIn 0 kind V) := by
    ext k
    rw [List.map_flatMap, mem_classes_flatMap_kinds, mem_classes_flatMap_kinds]
    simp only [classes_erase_primitivesIn]
  have hobject : classes ((if objectsIn V = [] then []
      else [object ((namesIn (objectsIn V)).map fun name => ⟨name,
        infer t (valuesUnder name (objectsIn V)), isMissingIn name (objectsIn V)⟩)]).map erase) =
      classes (if objectsIn V = [] then []
      else [object ((namesIn (objectsIn V)).map fun name => ⟨name,
        infer 0 (valuesUnder name (objectsIn V)), isMissingIn name (objectsIn V)⟩)]) := by
    split
    · rfl
    · rw [List.map_singleton, erase_object, classes_cons, classes_cons, identity_object,
        identity_object, List.map_map, List.map_map, List.map_map]
      -- the fields correspond name by name
      congr 3
      apply List.map_congr_left
      intro name hname
      simp only [Function.comp_apply, Field.map, hvalues name (mem_namesIn.mp hname)]
  have hlists : classes (((listsIn V).map fun items =>
      array (if items = [] then .primitive .string none else infer t items)).map erase) =
      classes ((listsIn V).map fun items =>
        array (if items = [] then .primitive .string none else infer 0 items)) := by
    rw [classes, classes, List.map_map, List.map_map, List.map_map]
    congr 1
    apply List.map_congr_left
    intro items hmem
    simp only [Function.comp_apply, erase, identity_array]
    split
    · rw [erase]
    · rename_i hne
      rw [hitems items hmem hne]
  have hnull : (if V.any isNull then [Shape.null] else []).map erase =
      if V.any isNull then [Shape.null] else [] := by
    split
    · rw [List.map_singleton, erase]
    · rfl
  simp only [collected, List.map_append, classes_append, hprimitives, hobject, hlists, hnull]

end Parts

/-- The shape of a place where the samples were seen, without its literals, is the shape that is
found without tracking them. -/
theorem identity_erase_infer (t : Nat) (V : List Sample) (hne : V ≠ []) :
    (infer t V).erase.identity = (infer 0 V).identity := by
  have hvalues : ∀ name, valuesUnder name (objectsIn V) ≠ [] →
      (infer t (valuesUnder name (objectsIn V))).erase.identity =
        (infer 0 (valuesUnder name (objectsIn V))).identity := by
    intro name hname
    have hsize := sizeOf_valuesUnder name V
    have hpos : 0 < (objectsIn V).length := by
      apply List.length_pos_iff.mpr
      rintro hnil
      rw [hnil] at hname
      exact hname rfl
    exact identity_erase_infer t _ hname
  have hitems : ∀ items ∈ listsIn V, items ≠ [] →
      (infer t items).erase.identity = (infer 0 items).identity := by
    intro items hmem hitems
    have hsize := sizeOf_lt_of_mem_listsIn hmem
    exact identity_erase_infer t items hitems
  obtain ⟨hflat, hcollected⟩ := flat_collected_of_ne_nil t hne
  obtain ⟨hflat₀, hcollected₀⟩ := flat_collected_of_ne_nil 0 hne
  calc (infer t V).erase.identity
      = (unite (collected t V)).erase.identity := by rw [infer_eq, anyOf_eq_unite hflat hcollected]
    _ = (unite ((collected t V).map erase)).identity := identity_erase_unite hflat hcollected
    _ = (unite (collected 0 V)).identity :=
        identity_unite_congr (flat_map_erase hflat) hflat₀ (classes_erase_collected hvalues hitems)
    _ = (infer 0 V).identity := by rw [infer_eq, anyOf_eq_unite hflat₀ hcollected₀]
termination_by sizeOf V

theorem identity_erase_outline (t : Nat) (v : Sample) :
    (v.outline t).erase.identity = (v.outline 0).identity := by
  have hregular := (regular_infer_and_identity t [v] (List.cons_ne_nil v [])).1
  calc (v.outline t).erase.identity
      = (infer t [v]).erase.identity :=
        identity_erase_congr (regular_outline t v) hregular (identity_infer t v)
    _ = (infer 0 [v]).identity := identity_erase_infer t [v] (List.cons_ne_nil v [])
    _ = (v.outline 0).identity := (identity_infer 0 v).symm

/-- Tracking literals only refines a shape: without the literals it is the shape that is found if
none are tracked.  Inference fails with the literals if and only if it fails without them. -/
theorem erase_tracked (limits : Limits) (v : Sample) (t : Nat) :
    (∀ fault, v.shape { limits with literals := t } = .error fault ↔
      v.shape { limits with literals := 0 } = .error fault) ∧
    ∀ s, v.shape { limits with literals := t } = .ok s →
      ∃ r, v.shape { limits with literals := 0 } = .ok r ∧ s.erase.equal? r = .ok true := by
  have htracked := yields_shape { limits with literals := t } v
  have hbare := yields_shape { limits with literals := 0 } v
  constructor
  · intro fault
    -- the depth that is accepted is the same
    by_cases hfits : Fits limits 0 v
    · rw [htracked.ok hfits, hbare.ok hfits]
      exact iff_of_false (fun h => by cases h) (fun h => by cases h)
    · rw [htracked.error hfits, hbare.error hfits]
  · intro s hs
    have hfits : Fits limits 0 v := by
      by_contra hfits
      rw [htracked.error hfits] at hs
      cases hs
    rw [htracked.eq_of_eq_ok hs]
    exact ⟨_, hbare.ok hfits, equal?_of_identity_eq (regular_erase (regular_outline t v))
      (regular_outline 0 v) (identity_erase_outline t v)⟩

/-- Readings that differ in their numbers alone, also in the lists. -/
def readings : Sample :=
  list [record [("at", scalar (.int 1)), ("values", list [scalar (.int 7)])],
    record [("at", scalar (.int 2)), ("values", list [scalar (.int 8)])]]

/-- Both lists are kept apart by their literals, and are one without them. -/
theorem erase_tracked_readings :
    ∃ s r, readings.shape { literals := 2 } = .ok s ∧ readings.shape { literals := 0 } = .ok r ∧
      s.erase.equal? r = .ok true := by
  have hfits : Fits {} 0 readings := by
    simp [readings, fits_list_iff, fits_record_iff, fits_scalar]
  have hshape := (yields_shape { literals := 2 } readings).ok hfits
  obtain ⟨r, hr, hequal⟩ := (erase_tracked {} readings 2).2 _ hshape
  exact ⟨_, r, hshape, hr, hequal⟩

end TypeSketch.Sample
