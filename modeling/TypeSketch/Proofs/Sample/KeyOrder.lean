import TypeSketch.Proofs.Sample.Outline
import TypeSketch.Proofs.Shape.Sorted

/-!
# The order of keys

`Reordered v w` says that two samples differ in the order of the keys of their objects and in
nothing else.  Main statements:

* `Reordered.sorted_outline`: their shapes differ in the order of fields alone;
* `Reordered.fits_iff`: both lie too deep or neither does.
-/

namespace TypeSketch.Sample

open Shape

/-- The samples differ only in the order of keys, in any number of objects at any depth. -/
inductive Reordered : Sample → Sample → Prop
  | refl (v : Sample) : Reordered v v
  | trans {u v w : Sample} (huv : Reordered u v) (hvw : Reordered v w) : Reordered u w
  | keys {xs ys : List (String × Sample)} (hkeys : (xs.map (·.1)).Nodup) (h : xs.Perm ys) :
      Reordered (.record xs) (.record ys)
  | item {v w : Sample} (xs ys : List Sample) (h : Reordered v w) :
      Reordered (.list (xs ++ v :: ys)) (.list (xs ++ w :: ys))
  | value {v w : Sample} (xs ys : List (String × Sample)) (name : String) (h : Reordered v w) :
      Reordered (.record (xs ++ (name, v) :: ys)) (.record (xs ++ (name, w) :: ys))

section Depth

theorem measured_list_iff {items : List Sample} {n : Nat} :
    (list items).Measured n ↔ n = 0 ∨ ∃ m, n = m + 1 ∧ ∃ v ∈ items, v.Measured m := by
  constructor
  · intro h
    cases h with
    | array => exact .inl rfl
    | item hv h => exact .inr ⟨_, rfl, _, hv, h⟩
  · rintro (rfl | ⟨m, rfl, v, hv, h⟩)
    · exact .array items
    · exact .item hv h

theorem measured_record_iff {fields : List (String × Sample)} {n : Nat} :
    (record fields).Measured n ↔
      ∃ e ∈ fields, n = 1 ∨ ∃ m, n = m + 1 ∧ e.2.Measured m := by
  constructor
  · intro h
    cases h with
    | value he => exact ⟨_, he, .inl rfl⟩
    | inner he h => exact ⟨_, he, .inr ⟨_, rfl, h⟩⟩
  · rintro ⟨e, he, rfl | ⟨m, rfl, h⟩⟩
    · exact .value he
    · exact .inner he h

/-- The same depths are measured. -/
theorem Reordered.measured_iff {v w : Sample} (h : Reordered v w) :
    ∀ n, v.Measured n ↔ w.Measured n := by
  induction h with
  | refl v => exact fun n => Iff.rfl
  | trans _ _ ih ih' => exact fun n => (ih n).trans (ih' n)
  | keys _ h =>
      intro n
      rw [measured_record_iff, measured_record_iff]
      simp only [h.mem_iff]
  | item xs ys _ ih =>
      intro n
      rw [measured_list_iff, measured_list_iff]
      simp only [List.mem_append, List.mem_cons, or_and_right, exists_or, exists_eq_left, ih]
  | value xs ys name _ ih =>
      intro n
      rw [measured_record_iff, measured_record_iff]
      simp only [List.mem_append, List.mem_cons, or_and_right, exists_or, exists_eq_left, ih]

theorem Reordered.fits_iff {v w : Sample} (h : Reordered v w) (limits : Limits) (depth : Nat) :
    Fits limits depth v ↔ Fits limits depth w := by
  simp only [Fits, h.measured_iff]

end Depth

section Outline

variable {t : Nat}

theorem sorted_outline_list {xs ys : List Sample}
    (h : xs.map (fun v => (v.offered t).sorted) = ys.map fun v => (v.offered t).sorted) :
    ((list xs).outline t).sorted = ((list ys).outline t).sorted := by
  have hoffers : (offers t xs).map sorted = (offers t ys).map sorted := by
    rw [offers_eq_map, offers_eq_map, List.map_map, List.map_map]
    exact h
  rw [outline_list, outline_list, sorted, sorted,
    sorted_blend_congr (flat_offers t xs) (flat_offers t ys) hoffers]

/-- The sorted shape of a record depends on the sorted shapes of its values. -/
theorem sorted_outline_record {xs ys : List (String × Sample)}
    (h : xs.map (fun e => (e.1, (e.2.outline t).sorted)) =
      ys.map fun e => (e.1, (e.2.outline t).sorted)) :
    ((record xs).outline t).sorted = ((record ys).outline t).sorted := by
  have hfields : ∀ fields : List (String × Sample),
      ((settle fields).map (outlineField t)).map (Field.map sorted) =
        (settle (fields.map fun e => (e.1, (e.2.outline t).sorted))).map
          fun e => ⟨e.1, e.2, false⟩ := by
    intro fields
    rw [settle_map fun _ v => (outline t v).sorted, List.map_map, List.map_map]
    rfl
  rw [outline_record, outline_record, sorted_object, sorted_object,
    ← sortFields_map (Field.map_name sorted), ← sortFields_map (Field.map_name sorted), hfields,
    hfields, h]

theorem sorted_outline_of_perm {xs ys : List (String × Sample)} (hkeys : (xs.map (·.1)).Nodup)
    (h : xs.Perm ys) : ((record xs).outline t).sorted = ((record ys).outline t).sorted := by
  have hkeys' : (ys.map (·.1)).Nodup := (h.map (·.1)).nodup_iff.mp hkeys
  have hnames : ((xs.map (outlineField t)).map (·.name)).Nodup := by
    rwa [names_outlineFields]
  rw [outline_record, outline_record, settle_eq_self hkeys, settle_eq_self hkeys', sorted_object,
    sorted_object, sortFields_eq_of_perm hnames (h.map _)]

/-- Reordered samples have shapes that differ in the order of fields alone, also as items. -/
theorem Reordered.sorted_eq {v w : Sample} (h : Reordered v w) :
    (v.outline t).sorted = (w.outline t).sorted ∧ (v.offered t).sorted = (w.offered t).sorted := by
  induction h with
  | refl v => exact ⟨rfl, rfl⟩
  | trans _ _ ih ih' => exact ⟨ih.1.trans ih'.1, ih.2.trans ih'.2⟩
  | keys hkeys h =>
      -- only scalars are offered otherwise than they are outlined
      have houtline := sorted_outline_of_perm (t := t) hkeys h
      exact ⟨houtline, houtline⟩
  | @item v w xs ys _ ih =>
      have houtline : ((list (xs ++ v :: ys)).outline t).sorted =
          ((list (xs ++ w :: ys)).outline t).sorted := by
        apply sorted_outline_list
        rw [List.map_append, List.map_append, List.map_cons, List.map_cons, ih.2]
      exact ⟨houtline, houtline⟩
  | @value v w xs ys name _ ih =>
      have houtline : ((record (xs ++ (name, v) :: ys)).outline t).sorted =
          ((record (xs ++ (name, w) :: ys)).outline t).sorted := by
        apply sorted_outline_record
        rw [List.map_append, List.map_append, List.map_cons, List.map_cons, ih.1]
      exact ⟨houtline, houtline⟩

theorem Reordered.sorted_outline {v w : Sample} (h : Reordered v w) (t : Nat) :
    (v.outline t).sorted = (w.outline t).sorted :=
  h.sorted_eq.1

end Outline

end TypeSketch.Sample
