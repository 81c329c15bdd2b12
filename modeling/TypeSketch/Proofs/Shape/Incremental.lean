import TypeSketch.Proofs.Shape.Congruence

/-!
# Incremental merging

A shape that was merged from some shapes may take their place among others: merging again yields
what merging everything at once does.  The proof goes through the parts.  Widened primitives absorb
what they were widened from, and a merged object absorbs its own parts field by field.  The result
of a single structure is that structure, which need not be what blending makes of it, so this case
is treated apart on each level.
-/

namespace TypeSketch.Shape

variable {t : Nat}

section Fields

variable {B C : List (List (Field Shape))}

theorem contentsNamed_append (name : String) (B C : List (List (Field Shape))) :
    contentsNamed name (B ++ C) = contentsNamed name B ++ contentsNamed name C := by
  rw [contentsNamed, fieldsNamed_eq, List.filterMap_append, List.map_append]
  rfl

theorem contentsNamed_mergedFields (t : Nat) (name : String) (C : List (List (Field Shape))) :
    contentsNamed name [mergedFields t C] =
      if contentsNamed name C = [] then [] else [position t (contentsNamed name C)] := by
  rw [contentsNamed, fieldsNamed_eq, List.filterMap_cons, entry_mergedFields]
  by_cases h : contentsNamed name C = []
  · rw [if_pos h, if_pos h]
    rfl
  · rw [if_neg h, if_neg h]
    rfl

/-- A merged object is optional under a name exactly where its parts are. -/
theorem isOptionalIn_append_mergedFields (hC : C ≠ []) (name : String) :
    isOptionalIn (B ++ [mergedFields t C]) name = isOptionalIn (B ++ C) name := by
  have hmerged : (∀ f ∈ entry name (mergedFields t C), f.isOptional = true) ↔
      ∃ fs ∈ C, ∀ f ∈ entry name fs, f.isOptional = true := by
    rw [entry_mergedFields]
    by_cases h : contentsNamed name C = []
    · -- no part has the name, and neither has the merged object
      obtain ⟨fs, hfs⟩ := List.exists_mem_of_ne_nil C hC
      have hnone : entry name fs = none := by
        rw [contentsNamed_eq_nil_iff, mem_fieldNames, not_exists] at h
        exact entry_eq_none_iff.mpr fun hmem => h fs ⟨hfs, hmem⟩
      rw [if_pos h]
      constructor
      · exact fun _ => ⟨fs, hfs, fun f hf => by rw [hnone] at hf; cases hf⟩
      · exact fun _ f hf => by cases hf
    · rw [if_neg h, ← isOptionalIn_iff]
      simp [mergedField]
  rw [Bool.eq_iff_iff, isOptionalIn_iff, isOptionalIn_iff]
  simp only [List.mem_append, List.mem_singleton, or_and_right, exists_or, exists_eq_left, hmerged]

theorem identity_mergedFields_append_of (hC : C ≠ [])
    (hposition : ∀ name, contentsNamed name C ≠ [] →
      (position t (contentsNamed name B ++ [position t (contentsNamed name C)])).identity =
        (position t (contentsNamed name B ++ contentsNamed name C)).identity) :
    (object (mergedFields t (B ++ [mergedFields t C]))).identity =
      (object (mergedFields t (B ++ C))).identity := by
  apply identity_object_mergedFields_eq
  · intro name
    rw [contentsNamed_append, contentsNamed_append, contentsNamed_mergedFields]
    split <;> simp_all
  · intro name _
    rw [contentsNamed_append, contentsNamed_append, contentsNamed_mergedFields]
    by_cases h : contentsNamed name C = []
    · rw [if_pos h, h]
    · rw [if_neg h]
      exact hposition name h
  · exact isOptionalIn_append_mergedFields hC

end Fields

section Position

variable {xs ys : List Shape}

/-- A merged content takes the place of what it was merged from, if merging itself does. -/
theorem identity_position_append_of (hxs : ∀ s ∈ xs, s.Regular) (hys : ∀ s ∈ ys, s.Regular)
    (hne : ys ≠ [])
    (happend : (merged t (xs ++ [merged t ys])).identity = (merged t (xs ++ ys)).identity)
    (halone : (merged t [merged t ys]).identity = (merged t ys).identity) :
    (position t (xs ++ [position t ys])).identity = (position t (xs ++ ys)).identity := by
  have hpos := regular_position (t := t) hys
  have hmer := regular_merged (t := t) hys
  have hboth : ∀ s ∈ xs ++ ys, s.Regular := List.forall_mem_append.mpr ⟨hxs, hys⟩
  have hwith : ∀ {r : Shape}, r.Regular → ∀ s ∈ xs ++ [r], s.Regular := fun hr =>
    List.forall_mem_append.mpr ⟨hxs, List.forall_mem_singleton.mpr hr⟩
  rcases length_distinct_cases ys with h | ⟨s, hs⟩ | htwo
  · exact absurd h hne
  · have hclasses : classes [s] = classes ys := by rw [← hs, classes_distinct]
    apply identity_position_congr (hwith hpos) hboth
    rw [position_of_single hs, classes_append, classes_append, hclasses]
  · have hmerged := identity_position_of_several (t := t) hys htwo
    have hwide : 2 ≤ (distinct (xs ++ ys)).length := by
      rw [length_distinct] at htwo ⊢
      rw [classes_append]
      exact htwo.trans (Finset.card_le_card Finset.subset_union_right)
    have hsame : classes (xs ++ [position t ys]) = classes (xs ++ [merged t ys]) := by
      simp [hmerged]
    rw [identity_position_of_several hboth hwide, ← happend]
    rcases length_distinct_cases (xs ++ [position t ys]) with h | ⟨s, hs⟩ | hmany
    · simp at h
    · -- everything in `xs` is already what `ys` merge to
      have hone : classes (xs ++ [position t ys]) = {s.identity} := by
        rw [← classes_distinct, hs]
        simp
      have hlast : (position t ys).identity = s.identity := by
        rw [← Finset.mem_singleton, ← hone]
        exact identity_mem_classes (by simp)
      rw [position_of_single hs, ← hlast, hmerged, ← halone]
      have halone' : ∀ r ∈ [merged t ys], r.Regular := List.forall_mem_singleton.mpr hmer
      apply identity_merged_congr halone' (hwith hmer)
      apply classes_flatten_congr halone' (hwith hmer)
      rw [← hsame, hone, ← hlast, hmerged]
      simp
    · rw [identity_position_of_several (hwith hpos) hmany]
      apply identity_merged_congr (hwith hpos) (hwith hmer)
      exact classes_flatten_congr (hwith hpos) (hwith hmer) hsame

end Position

section Blend

variable {F G : List Shape}

theorem ofKind_union (kind : Kind) (S T : Finset Key) :
    ofKind kind (S ∪ T) = ofKind kind S ∪ ofKind kind T :=
  Finset.filter_union _ S T

theorem mem_bodyClasses_pieces {k : Key} :
    k ∈ bodyClasses (bodiesOf (pieces t G)) ↔
      bodiesOf G ≠ [] ∧ k = (object (mergedFields t (bodiesOf G))).identity := by
  rw [mem_bodyClasses_bodiesOf, mem_classes_pieces]
  constructor
  · rintro ⟨⟨kind, h⟩ | h | ⟨-, hkept⟩, hobject⟩
    · obtain ⟨l, rfl⟩ := isOf_of_mem_widened h
      cases hobject
    · exact h
    · cases k <;> first | exact hkept.elim | exact hobject.elim
  · rintro ⟨hne, rfl⟩
    exact ⟨Or.inr (Or.inl ⟨hne, rfl⟩), isObject_identity_iff.mpr ⟨_, rfl⟩⟩

/-- What is left alone stands among the pieces just where it stood before. -/
theorem isKept_append_pieces {k : Key} :
    (k ∈ classes (F ++ pieces t G) ∧ k.IsKept) ↔ (k ∈ classes (F ++ G) ∧ k.IsKept) := by
  rw [classes_append, classes_append, Finset.mem_union, Finset.mem_union, mem_classes_pieces]
  constructor
  · rintro ⟨h | ⟨kind, h⟩ | ⟨-, rfl⟩ | ⟨h, -⟩, hk⟩
    · exact ⟨Or.inl h, hk⟩
    · obtain ⟨l, rfl⟩ := isOf_of_mem_widened h
      exact hk.elim
    · rw [identity_object] at hk
      exact hk.elim
    · exact ⟨Or.inr h, hk⟩
  · rintro ⟨h | h, hk⟩
    · exact ⟨Or.inl h, hk⟩
    · exact ⟨Or.inr (Or.inr (Or.inr ⟨h, hk⟩)), hk⟩

theorem bodiesOf_pieces_eq_nil_iff : bodiesOf (pieces t G) = [] ↔ bodiesOf G = [] := by
  rw [← bodyClasses_eq_empty_iff, Finset.eq_empty_iff_forall_notMem]
  simp only [mem_bodyClasses_pieces]
  constructor
  · intro h
    by_contra hne
    exact h _ ⟨hne, rfl⟩
  · rintro h k ⟨hne, -⟩
    exact hne h

/-- The object among the pieces is merged in place of those it was merged from. -/
theorem identity_mergedFields_append_pieces (hF : Flat F) (hG : Flat G)
    (hobject : bodiesOf G ≠ [] →
      (object (mergedFields t (bodiesOf F ++ [mergedFields t (bodiesOf G)]))).identity =
        (object (mergedFields t (bodiesOf F ++ bodiesOf G))).identity) :
    (object (mergedFields t (bodiesOf (F ++ pieces t G)))).identity =
      (object (mergedFields t (bodiesOf (F ++ G)))).identity := by
  rw [bodiesOf_append, bodiesOf_append]
  by_cases hnone : bodiesOf G = []
  · rw [hnone, bodiesOf_pieces_eq_nil_iff.mpr hnone]
  · rw [← hobject hnone]
    apply identity_mergedFields_congr
    · rw [← bodiesOf_append]
      exact (hF.append hG.pieces).bodies
    · exact List.forall_mem_append.mpr
        ⟨hF.bodies, List.forall_mem_singleton.mpr (regular_mergedFields hG.bodies)⟩
    · have hclasses : bodyClasses (bodiesOf (pieces t G)) =
          bodyClasses [mergedFields t (bodiesOf G)] := by
        ext k
        rw [mem_bodyClasses_pieces]
        simp [bodyClasses, hnone]
      rw [bodyClasses, bodyClasses, List.map_append, List.map_append, classes_append,
        classes_append, ← bodyClasses, ← bodyClasses, hclasses]
      rfl

/-- Pieces take the place of what they were made from, if the merged object does. -/
theorem identity_blend_append_of (hF : Flat F) (hG : Flat G) (hne : G ≠ [])
    (hobject : bodiesOf G ≠ [] →
      (object (mergedFields t (bodiesOf F ++ [mergedFields t (bodiesOf G)]))).identity =
        (object (mergedFields t (bodiesOf F ++ bodiesOf G))).identity) :
    (blend t (F ++ (blend t G).members)).identity = (blend t (F ++ G)).identity := by
  have hpieces : (blend t (F ++ (blend t G).members)).identity =
      (blend t (F ++ pieces t G)).identity := by
    apply identity_blend_congr (hF.append (flat_members_unite hG.pieces)) (hF.append hG.pieces)
    rw [classes_append, classes_append]
    exact congrArg (classes F ∪ ·) (classes_members_unite hG.pieces (pieces_ne_nil hG hne))
  rw [hpieces]
  apply identity_unite_congr (hF.append hG.pieces).pieces (hF.append hG).pieces
  ext k
  have hprims : ∀ kind, widened t kind (ofKind kind (classes (F ++ pieces t G))) =
      widened t kind (ofKind kind (classes (F ++ G))) := by
    intro kind
    rw [classes_append, classes_append, ofKind_union, ofKind_union, ofKind_classes_pieces,
      widened_union_widened]
  have hbodies : bodiesOf (F ++ pieces t G) ≠ [] ↔ bodiesOf (F ++ G) ≠ [] := by
    rw [bodiesOf_append, bodiesOf_append, Ne, Ne, List.append_eq_nil_iff, List.append_eq_nil_iff,
      bodiesOf_pieces_eq_nil_iff]
  rw [mem_classes_pieces, mem_classes_pieces, hbodies,
    identity_mergedFields_append_pieces hF hG hobject, isKept_append_pieces]
  simp only [hprims]

end Blend

section Merge

variable {xs ys : List Shape}

theorem flatten_ne_nil (hys : ∀ s ∈ ys, s.Regular) (hne : ys ≠ []) : flatten ys ≠ [] := by
  obtain ⟨s, hs⟩ := List.exists_mem_of_ne_nil ys hne
  have hmembers : s.members ≠ [] := by
    cases hys s hs with
    | union hne _ _ => exact hne
    | _ => exact List.cons_ne_nil _ _
  obtain ⟨m, hm⟩ := List.exists_mem_of_ne_nil _ hmembers
  exact List.ne_nil_of_mem (mem_flatten.mpr ⟨s, hs, hm⟩)

/-- A merged shape takes the place of what it was merged from, if its blended parts do, also
where nothing else is around. -/
theorem identity_merged_append_of (hxs : ∀ s ∈ xs, s.Regular) (hys : ∀ s ∈ ys, s.Regular)
    (hne : ys ≠ []) (hone : (classes (flatten ys)).card ≠ 1)
    (happend : (blend t (flatten xs ++ (blend t (flatten ys)).members)).identity =
      (blend t (flatten xs ++ flatten ys)).identity)
    (halone : (blend t (blend t (flatten ys)).members).identity =
      (blend t (flatten ys)).identity) :
    (merged t (xs ++ [merged t ys])).identity = (merged t (xs ++ ys)).identity := by
  have hF := flat_flatten hxs
  have hG := flat_flatten hys
  have hGne : flatten ys ≠ [] := flatten_ne_nil hys hne
  have hblend := regular_blend (t := t) hG
  have hmembers : Flat (blend t (flatten ys)).members := flat_members_unite hG.pieces
  have hclasses : classes (blend t (flatten ys)).members = classes (pieces t (flatten ys)) :=
    classes_members_unite hG.pieces (pieces_ne_nil hG hGne)
  have hboth : ∀ s ∈ xs ++ ys, s.Regular := List.forall_mem_append.mpr ⟨hxs, hys⟩
  have hwith : ∀ {r : Shape}, r.Regular → ∀ s ∈ xs ++ [r], s.Regular := fun hr =>
    List.forall_mem_append.mpr ⟨hxs, List.forall_mem_singleton.mpr hr⟩
  have hflatten : flatten (xs ++ [blend t (flatten ys)]) =
      flatten xs ++ (blend t (flatten ys)).members := by
    rw [flatten_append, flatten_singleton]
  have hleft : (merged t (xs ++ [merged t ys])).identity =
      (merged t (xs ++ [blend t (flatten ys)])).identity := by
    apply identity_merged_congr (hwith (regular_merged hys)) (hwith hblend)
    apply classes_flatten_congr (hwith (regular_merged hys)) (hwith hblend)
    simp [identity_merged_of_several hys hone]
  have hright : (merged t (xs ++ ys)).identity = (blend t (flatten xs ++ flatten ys)).identity := by
    rw [← flatten_append]
    apply identity_merged_of_several hboth
    have hpos : 0 < (classes (flatten ys)).card := by
      rw [Finset.card_pos, Finset.nonempty_iff_ne_empty, Ne, classes_eq_empty_iff]
      exact hGne
    have hle : (classes (flatten ys)).card ≤ (classes (flatten (xs ++ ys))).card := by
      rw [flatten_append, classes_append]
      exact Finset.card_le_card Finset.subset_union_right
    omega
  rw [hleft, hright]
  -- merging again blends, unless all is one structure by now
  by_cases hcard : (classes (flatten xs ++ (blend t (flatten ys)).members)).card = 1
  · obtain ⟨k, hk⟩ := Finset.card_eq_one.mp hcard
    -- all of `xs` is already what `ys` were merged to
    have hsingle : classes (blend t (flatten ys)).members = {k} := by
      apply (Finset.subset_singleton_iff.mp _).resolve_left
      · rw [hclasses, classes_eq_empty_iff]
        exact pieces_ne_nil hG hGne
      · rw [← hk, classes_append]
        exact Finset.subset_union_right
    rw [identity_merged_of_single (hflatten ▸ hk), ← happend]
    rw [identity_blend_congr (hF.append hmembers) hmembers (hk.trans hsingle.symm), halone]
    exact (identity_unite_of_single hG.pieces (hclasses ▸ hsingle)).symm
  · rw [identity_merged_of_several (hwith hblend) (hflatten ▸ hcard), hflatten, happend]

theorem identity_merged_append_of_size (t : Nat) : ∀ (n : Nat) {xs ys : List Shape},
    totalSize xs + totalSize ys < n → (∀ s ∈ xs, s.Regular) → (∀ s ∈ ys, s.Regular) → ys ≠ [] →
    (merged t (xs ++ [merged t ys])).identity = (merged t (xs ++ ys)).identity
  | 0, _, _, hsize, _, _, _ => absurd hsize (Nat.not_lt_zero _)
  | n + 1, xs, ys, hsize, hxs, hys, hne => by
      have hG := flat_flatten hys
      by_cases hone : (classes (flatten ys)).card = 1
      · rw [← length_distinct] at hone
        obtain ⟨s, hs⟩ := List.length_eq_one_iff.mp hone
        have hmem : s ∈ distinct (flatten ys) := by simp [hs]
        rw [merged_of_single hs]
        apply identity_merged_congr
        · exact List.forall_mem_append.mpr
            ⟨hxs, List.forall_mem_singleton.mpr (hG.distinct.regular s hmem)⟩
        · exact List.forall_mem_append.mpr ⟨hxs, hys⟩
        · rw [flatten_append, flatten_append, flatten_singleton,
            members_of_isUnion_eq_false (hG.distinct.noUnion s hmem), classes_append,
            classes_append, ← hs, classes_distinct]
      · -- the contents of each field are smaller, with and without what `xs` bring
        have hobject : ∀ zs : List Shape, totalSize zs ≤ totalSize xs →
            (∀ s ∈ zs, s.Regular) → bodiesOf (flatten ys) ≠ [] →
            (object (mergedFields t
              (bodiesOf (flatten zs) ++ [mergedFields t (bodiesOf (flatten ys))]))).identity =
            (object (mergedFields t (bodiesOf (flatten zs) ++ bodiesOf (flatten ys)))).identity := by
          intro zs hle hzs hbodies
          apply identity_mergedFields_append_of hbodies
          intro name hname
          have hC := regular_contentsNamed (flat_flatten hzs).bodies name
          have hD := regular_contentsNamed hG.bodies name
          have hsizes := totalSize_contentsNamed_le name (flatten zs)
          have hsizes' := totalSize_contentsNamed_le name (flatten ys)
          have hflatten := totalSize_flatten_le zs
          have hflatten' := totalSize_flatten_le ys
          have hpos := List.length_pos_iff.mpr hname
          apply identity_position_append_of hC hD hname
          · exact identity_merged_append_of_size t n (by omega) hC hD hname
          · have hsmall : totalSize [] + totalSize (contentsNamed name (bodiesOf (flatten ys))) < n := by
              rw [totalSize]
              omega
            exact identity_merged_append_of_size t n hsmall (fun _ h => by cases h) hD hname
        have hnil : bodiesOf (flatten []) = [] := rfl
        have hnone := hobject [] (Nat.zero_le _) fun _ h => by cases h
        rw [hnil] at hnone
        have halone := identity_blend_append_of flat_nil hG (flatten_ne_nil hys hne) hnone
        rw [List.nil_append, List.nil_append] at halone
        exact identity_merged_append_of hxs hys hne hone
          (identity_blend_append_of (flat_flatten hxs) hG (flatten_ne_nil hys hne)
            (hobject xs (Nat.le_refl _) hxs)) halone

/-- A merged shape takes the place of what it was merged from. -/
theorem identity_merged_append (hxs : ∀ s ∈ xs, s.Regular) (hys : ∀ s ∈ ys, s.Regular)
    (hne : ys ≠ []) : (merged t (xs ++ [merged t ys])).identity = (merged t (xs ++ ys)).identity :=
  identity_merged_append_of_size t _ (Nat.lt_succ_self _) hxs hys hne

theorem identity_position_append (hxs : ∀ s ∈ xs, s.Regular) (hys : ∀ s ∈ ys, s.Regular)
    (hne : ys ≠ []) :
    (position t (xs ++ [position t ys])).identity = (position t (xs ++ ys)).identity :=
  identity_position_append_of hxs hys hne (identity_merged_append hxs hys hne)
    (identity_merged_append (fun _ (h : _ ∈ []) => by cases h) hys hne)

/-- A merged object takes the place of the objects it was merged from. -/
theorem identity_mergedFields_append {B C : List (List (Field Shape))}
    (hB : ∀ fs ∈ B, (object fs).Regular) (hC : ∀ fs ∈ C, (object fs).Regular) (hne : C ≠ []) :
    (object (mergedFields t (B ++ [mergedFields t C]))).identity =
      (object (mergedFields t (B ++ C))).identity :=
  identity_mergedFields_append_of hne fun name hname =>
    identity_position_append (regular_contentsNamed hB name) (regular_contentsNamed hC name) hname

end Merge

/-- Incremental merging equals merging at once, for objects and for shapes of any kind. -/
theorem incremental_merging (t : Nat) :
    (∀ xs ys : List Shape, (∀ s ∈ xs ++ ys, s.Regular ∧ ∃ fs, s = object fs) → ys ≠ [] →
      ∃ part stepwise atOnce, mergeObjects t ys = .ok part ∧
        mergeObjects t (xs ++ [part]) = .ok stepwise ∧ mergeObjects t (xs ++ ys) = .ok atOnce ∧
        stepwise.equal? atOnce = .ok true) ∧
    (∀ xs ys : List Shape, (∀ s ∈ xs ++ ys, s.Regular) → ys ≠ [] →
      ∃ part stepwise atOnce, consolidate t ys = .ok part ∧
        consolidate t (xs ++ [part]) = .ok stepwise ∧ consolidate t (xs ++ ys) = .ok atOnce ∧
        stepwise.equal? atOnce = .ok true) := by
  constructor
  · intro xs ys hobjects hne
    obtain ⟨B, rfl, hB⟩ := exists_bodies fun s hs => hobjects s (List.mem_append_left ys hs)
    obtain ⟨C, rfl, hC⟩ := exists_bodies fun s hs => hobjects s (List.mem_append_right _ hs)
    have hC' : C ≠ [] := fun h => hne (by rw [h]; rfl)
    have hpart : ∀ fs ∈ B ++ [mergedFields t C], (object fs).Regular :=
      List.forall_mem_append.mpr ⟨hB, List.forall_mem_singleton.mpr (regular_mergedFields hC)⟩
    have hboth : ∀ fs ∈ B ++ C, (object fs).Regular := List.forall_mem_append.mpr ⟨hB, hC⟩
    have hstep := mergeObjects_eq (t := t) hpart
    have hall := mergeObjects_eq (t := t) hboth
    rw [List.map_append] at hstep hall
    refine ⟨_, _, _, mergeObjects_eq hC, hstep, hall, ?_⟩
    exact equal?_of_identity_eq (regular_mergedFields hpart) (regular_mergedFields hboth)
      (identity_mergedFields_append hB hC hC')
  · intro xs ys hreg hne
    obtain ⟨hxs, hys⟩ := List.forall_mem_append.mp hreg
    have hpart : ∀ s ∈ xs ++ [merged t ys], s.Regular :=
      List.forall_mem_append.mpr ⟨hxs, List.forall_mem_singleton.mpr (regular_merged hys)⟩
    refine ⟨_, _, _, consolidate_eq hys, consolidate_eq hpart, consolidate_eq hreg, ?_⟩
    exact equal?_of_identity_eq (regular_merged hpart) (regular_merged hreg)
      (identity_merged_append hxs hys hne)

/-- An identifier `0` meets `-0.0` and objects without one; a place meets literals and null. -/
theorem incremental_merging_zeros :
    (∃ part stepwise atOnce,
      mergeObjects 1 [object [⟨"id", primitive .number (some (.float (.zero true))), false⟩],
        object []] = .ok part ∧
      mergeObjects 1 ([object [⟨"id", primitive .number (some (.int 0)), false⟩]] ++ [part]) =
        .ok stepwise ∧
      mergeObjects 1 ([object [⟨"id", primitive .number (some (.int 0)), false⟩]] ++
        [object [⟨"id", primitive .number (some (.float (.zero true))), false⟩], object []]) =
        .ok atOnce ∧
      stepwise.equal? atOnce = .ok true) ∧
    (∃ part stepwise atOnce,
      consolidate 0 [primitive .number (some (.int 0)), null] = .ok part ∧
      consolidate 0 ([union [primitive .boolean none, null]] ++ [part]) = .ok stepwise ∧
      consolidate 0 ([union [primitive .boolean none, null]] ++
        [primitive .number (some (.int 0)), null]) = .ok atOnce ∧
      stepwise.equal? atOnce = .ok true) := by
  constructor
  · apply (incremental_merging 1).1
    · have hliteral : ∀ l : Literal, l.kind = .number →
          (object [⟨"id", primitive .number (some l), false⟩]).Regular := by
        intro l hl
        refine .object (by simp) fun f hf => ?_
        rw [List.mem_singleton.mp hf]
        exact .primitive fun m hm => Option.some.inj hm ▸ hl
      intro s hs
      simp only [List.cons_append, List.nil_append, List.mem_cons, List.not_mem_nil, or_false] at hs
      rcases hs with rfl | rfl | rfl
      · exact ⟨hliteral _ rfl, _, rfl⟩
      · exact ⟨hliteral _ rfl, _, rfl⟩
      · exact ⟨.object List.nodup_nil (fun _ h => by cases h), _, rfl⟩
    · exact List.cons_ne_nil _ _
  · apply (incremental_merging 0).2
    · have hbare : ∀ s ∈ [primitive .boolean none, null], s.Regular := by
        intro s hs
        simp only [List.mem_cons, List.not_mem_nil, or_false] at hs
        rcases hs with rfl | rfl
        · exact regular_bare _
        · exact .null
      intro s hs
      simp only [List.cons_append, List.nil_append, List.mem_cons, List.not_mem_nil, or_false] at hs
      rcases hs with rfl | rfl | rfl
      · exact .union (List.cons_ne_nil _ _) (by simp [isUnion]) hbare
      · exact .primitive fun m hm => Option.some.inj hm ▸ rfl
      · exact .null
    · exact List.cons_ne_nil _ _

end TypeSketch.Shape
