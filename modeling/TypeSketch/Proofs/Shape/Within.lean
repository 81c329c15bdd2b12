import TypeSketch.Declaration.Emission
import TypeSketch.Proofs.Shape.Identity

/-!
# Occurrences in a shape

`Within r s` says that `r` occurs in `s`, at any depth.  Main statements, the first two for regular
shapes:

* `exists_within_of_identity_eq`: the same structures occur in shapes that are the same;
* `sizeOf_identity_lt`: what occurs inside an object is never the object again;
* `identity_sorted`: sorting the fields does not change the structure.
-/

namespace TypeSketch.Shape

/-- The first shape occurs in the second one. -/
inductive Within : Shape → Shape → Prop
  | refl (s : Shape) : Within s s
  | item {r s : Shape} (h : Within r s) : Within r (.array s)
  | content {r : Shape} {fs : List (Field Shape)} {f : Field Shape} (hf : f ∈ fs)
      (h : Within r f.content) : Within r (.object fs)
  | member {r m : Shape} {ms : List Shape} (hm : m ∈ ms) (h : Within r m) : Within r (.union ms)

theorem Within.trans {r s t : Shape} (hrs : Within r s) (hst : Within s t) : Within r t := by
  induction hst with
  | refl => exact hrs
  | item _ ih => exact .item ih
  | content hf _ ih => exact .content hf ih
  | member hm _ ih => exact .member hm ih

theorem Regular.of_within {r s : Shape} (hs : s.Regular) (h : Within r s) : r.Regular := by
  induction h with
  | refl => exact hs
  | item _ ih =>
      cases hs with
      | array hs => exact ih hs
  | content hf _ ih => exact ih (hs.content hf)
  | member hm _ ih => exact ih (hs.of_mem hm)

/-- What occurs in a shape has its like in every shape that is the same. -/
theorem exists_within_of_identity_eq {r s : Shape} (h : Within r s) : ∀ {t : Shape},
    s.Regular → t.Regular → s.identity = t.identity → ∃ u, Within u t ∧ u.identity = r.identity := by
  induction h with
  | refl => exact fun _ _ heq => ⟨_, .refl _, heq.symm⟩
  | @item s _ ih =>
      intro t hs ht heq
      cases hs with
      | array hs =>
          cases ht with
          | array ht =>
              obtain ⟨u, hu, hur⟩ := ih hs ht (Key.array.inj heq)
              exact ⟨u, .item hu, hur⟩
          | _ => cases heq
  | @content fs f hf _ ih =>
      intro t hs ht heq
      cases t with
      | object gs =>
          obtain ⟨g, hg, hcontent⟩ := exists_content_of_identity_eq heq hf
          obtain ⟨u, hu, hur⟩ := ih (hs.content hf) (ht.content hg) hcontent
          exact ⟨u, .content hg hu, hur⟩
      | _ => cases heq
  | @member m ms hm _ ih =>
      intro t hs ht heq
      cases t with
      | union ns =>
          have hmem : m.identity ∈ classes ns :=
            (identity_union_eq_iff hs ht).mp heq ▸ identity_mem_classes hm
          obtain ⟨n, hn, hnm⟩ := mem_classes.mp hmem
          obtain ⟨u, hu, hur⟩ := ih (hs.of_mem hm) (ht.of_mem hn) hnm.symm
          exact ⟨u, .member hn hu, hur⟩
      | _ => cases heq

section Size

theorem sizeOf_identity_content_lt {fs : List (Field Shape)} {f : Field Shape} (hf : f ∈ fs) :
    sizeOf f.content.identity < sizeOf (object fs).identity := by
  rw [identity_object]
  have hmem : f.map identity ∈ sortFields (fs.map (Field.map identity)) :=
    mem_sortFields.mpr (List.mem_map_of_mem hf)
  have hlt := List.sizeOf_lt_of_mem hmem
  have hfield : sizeOf f.content.identity < sizeOf (f.map identity) := by
    rw [Field.map, Field.mk.sizeOf_spec]
    omega
  rw [Key.object.sizeOf_spec]
  omega

theorem sizeOf_identity_member_lt {ms : List Shape} (hms : (union ms).Regular) {m : Shape}
    (hm : m ∈ ms) : sizeOf m.identity < sizeOf (union ms).identity := by
  rw [hms.wellTyped.identity_union]
  have hmem : m.identity ∈ Key.arrange (ms.map identity) :=
    (Key.mem_arrange hms.wellTyped.proper_identities).mpr (List.mem_map_of_mem hm)
  have hlt := List.sizeOf_lt_of_mem hmem
  rw [Key.union.sizeOf_spec]
  omega

theorem sizeOf_identity_le {r s : Shape} (hs : s.Regular) (h : Within r s) :
    sizeOf r.identity ≤ sizeOf s.identity := by
  induction h with
  | refl => exact Nat.le_refl _
  | item _ ih =>
      cases hs with
      | array hs =>
          have hle := ih hs
          rw [identity_array, Key.array.sizeOf_spec]
          omega
  | content hf _ ih =>
      exact (ih (hs.content hf)).trans (Nat.le_of_lt (sizeOf_identity_content_lt hf))
  | member hm _ ih =>
      exact (ih (hs.of_mem hm)).trans (Nat.le_of_lt (sizeOf_identity_member_lt hs hm))

/-- What occurs inside an object is never the object again. -/
theorem identity_ne_of_within_content {fs : List (Field Shape)} (hfs : (object fs).Regular)
    {f : Field Shape} (hf : f ∈ fs) {r : Shape} (h : Within r f.content) :
    r.identity ≠ (object fs).identity := by
  intro heq
  -- identities only get smaller on the way in
  have hle := sizeOf_identity_le (hfs.content hf) h
  have hlt := sizeOf_identity_content_lt hf
  rw [heq] at hle
  omega

end Size

section Sorted

theorem sortedFields_eq_map (fs : List (Field Shape)) :
    sortedFields fs = fs.map (Field.map sorted) := by
  induction fs with
  | nil => rfl
  | cons f fs ih => rw [sortedFields, ih, List.map_cons]; rfl

theorem sortedMembers_eq_map (ms : List Shape) : sortedMembers ms = ms.map sorted := by
  induction ms with
  | nil => rfl
  | cons m ms ih => rw [sortedMembers, ih, List.map_cons]

theorem sorted_object (fs : List (Field Shape)) :
    (object fs).sorted = .object ((sortFields fs).map (Field.map sorted)) := by
  rw [sorted, sortedFields_eq_map, sortFields_map (Field.map_name sorted)]

theorem sorted_union (ms : List Shape) : (union ms).sorted = .union (ms.map sorted) := by
  rw [sorted, sortedMembers_eq_map]

theorem isUnion_sorted (s : Shape) : s.sorted.isUnion = s.isUnion := by
  cases s <;> rfl

theorem isNull_sorted (s : Shape) : s.sorted.isNull = s.isNull := by
  cases s <;> rfl

theorem regular_sorted {s : Shape} (hs : s.Regular) : s.sorted.Regular := by
  induction hs with
  | null => exact .null
  | primitive hkind => exact .primitive hkind
  | array _ ih => exact .array ih
  | @object fs hnames _ ih =>
      rw [sorted_object]
      apply Regular.object
      · rw [names_map]
        exact nodup_names_sortFields hnames
      · intro f hf
        obtain ⟨g, hg, rfl⟩ := List.mem_map.mp hf
        exact ih g (mem_sortFields.mp hg)
  | @union ms hne hflat _ ih =>
      rw [sorted_union]
      apply Regular.union
      · exact mt List.map_eq_nil_iff.mp hne
      · intro m hm
        obtain ⟨n, hn, rfl⟩ := List.mem_map.mp hm
        rw [isUnion_sorted]
        exact hflat n hn
      · intro m hm
        obtain ⟨n, hn, rfl⟩ := List.mem_map.mp hm
        exact ih n hn

mutual

theorem key_sorted : ∀ s : Shape, s.sorted.key = s.key
  | .null => rfl
  | .primitive _ _ => rfl
  | .array s => congrArg Key.array (key_sorted s)
  | .object fs => by
      rw [sorted, key, key, keysOfFields_eq_map, ← sortFields_map (Field.map_name key),
        sortFields_sortFields, ← keysOfFields_eq_map, keysOfFields_sortedFields fs]
  | .union ms => by rw [sorted, key, key, keys_sortedMembers ms]
  | .hole => rfl

theorem keysOfFields_sortedFields : ∀ fs : List (Field Shape),
    keysOfFields (sortedFields fs) = keysOfFields fs
  | [] => rfl
  | ⟨n, s, o⟩ :: rest => by
      rw [sortedFields, keysOfFields, keysOfFields, key_sorted s, keysOfFields_sortedFields rest]

theorem keys_sortedMembers : ∀ ms : List Shape, keys (sortedMembers ms) = keys ms
  | [] => rfl
  | s :: rest => by rw [sortedMembers, keys, keys, key_sorted s, keys_sortedMembers rest]

end

/-- Sorting the fields does not change the structure. -/
theorem identity_sorted (s : Shape) : s.sorted.identity = s.identity :=
  congrArg Key.canonical (key_sorted s)

/-- What occurs in a sorted shape is a sorted occurrence. -/
theorem exists_within_of_within_sorted {r s : Shape} (h : Within r s.sorted) :
    ∃ t, Within t s ∧ r = t.sorted := by
  -- the induction is on the occurrence, for every shape that is sorted to what it occurs in
  generalize hu : s.sorted = u at h
  induction h generalizing s with
  | refl => exact ⟨s, .refl s, hu.symm⟩
  | item _ ih =>
      cases s with
      | array s =>
          obtain ⟨t, ht, hr⟩ := ih (Shape.array.inj hu)
          exact ⟨t, .item ht, hr⟩
      | _ => cases hu
  | @content fs f hf _ ih =>
      cases s with
      | object gs =>
          rw [sorted_object, Shape.object.injEq] at hu
          rw [← hu] at hf
          obtain ⟨g, hg, rfl⟩ := List.mem_map.mp hf
          obtain ⟨t, ht, hr⟩ := ih rfl
          exact ⟨t, .content (mem_sortFields.mp hg) ht, hr⟩
      | _ => cases hu
  | @member m ms hm _ ih =>
      cases s with
      | union ns =>
          rw [sorted_union, Shape.union.injEq] at hu
          rw [← hu] at hm
          obtain ⟨n, hn, rfl⟩ := List.mem_map.mp hm
          obtain ⟨t, ht, hr⟩ := ih rfl
          exact ⟨t, .member hn ht, hr⟩
      | _ => cases hu

/-- The objects in a sorted shape have their fields in order. -/
theorem sortFields_of_within_sorted {fs : List (Field Shape)} {s : Shape}
    (h : Within (object fs) s.sorted) : sortFields fs = fs := by
  obtain ⟨t, -, heq⟩ := exists_within_of_within_sorted h
  cases t with
  | object gs =>
      rw [sorted_object, Shape.object.injEq] at heq
      rw [heq, sortFields_map (Field.map_name sorted), sortFields_sortFields]
  | _ => cases heq

theorem exists_union_of_within_sorted {ms : List Shape} {s : Shape}
    (h : Within (union ms) s.sorted) : ∃ ns, Within (union ns) s ∧ ms = ns.map sorted := by
  obtain ⟨t, ht, heq⟩ := exists_within_of_within_sorted h
  cases t with
  | union ns =>
      rw [sorted_union, Shape.union.injEq] at heq
      exact ⟨ns, ht, heq⟩
  | _ => cases heq

end Sorted

end TypeSketch.Shape
