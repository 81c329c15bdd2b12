import TypeSketch.Proofs.Shape.Merged

/-!
# Merging, part by part

Which structures come out of each part of the merging, in terms of the structures that went in.
Main statements:

* `classes_widen`: the primitives of one kind keep their literals or become bare;
* `mem_classes_pieces`: what stands side by side once the parts were merged;
* `classes_members_unite`, `identity_unite_congr`: a union is determined by what was united.
-/

namespace TypeSketch

namespace Key

/-- The keys of the primitives of a kind. -/
def IsOf (kind : Kind) (k : Key) : Prop :=
  ∃ l, k = .primitive kind l

instance (kind : Kind) : DecidablePred (IsOf kind) := fun k =>
  match k with
  | .primitive kind' l =>
      decidable_of_iff (kind' = kind) ⟨fun h => ⟨l, by rw [h]⟩, fun ⟨_, h⟩ => (Key.primitive.inj h).1⟩
  | .null | .array _ | .object _ | .union _ | .hole => isFalse fun ⟨_, h⟩ => by cases h

theorem IsOf.kind_eq {k : Key} {kind kind' : Kind} (h : k.IsOf kind) (h' : k.IsOf kind') :
    kind = kind' := by
  obtain ⟨l, rfl⟩ := h
  obtain ⟨l', hl'⟩ := h'
  exact (Key.primitive.inj hl').1

/-- The keys of the shapes that merging leaves alone: null and arrays. -/
def IsKept : Key → Prop
  | .null | .array _ => True
  | _ => False

def IsObject : Key → Prop
  | .object _ => True
  | _ => False

end Key

namespace Shape

section Widening

/-- Whether the primitives of one kind keep their literals. -/
def KeepsLiterals (threshold : Nat) (kind : Kind) (S : Finset Key) : Prop :=
  .primitive kind none ∉ S ∧ 0 < threshold ∧ S.card ≤ threshold

instance (threshold : Nat) (kind : Kind) (S : Finset Key) :
    Decidable (KeepsLiterals threshold kind S) :=
  inferInstanceAs (Decidable (_ ∧ _ ∧ _))

theorem KeepsLiterals.mono {t : Nat} {kind : Kind} {S T : Finset Key} (hST : S ⊆ T)
    (h : KeepsLiterals t kind T) : KeepsLiterals t kind S :=
  ⟨fun hS => h.1 (hST hS), h.2.1, (Finset.card_le_card hST).trans h.2.2⟩

/-- The structures to which the primitives of one kind are widened. -/
def widened (threshold : Nat) (kind : Kind) (S : Finset Key) : Finset Key :=
  if S = ∅ then ∅ else if KeepsLiterals threshold kind S then S else {.primitive kind none}

theorem widened_subset (t : Nat) (kind : Kind) (S : Finset Key) :
    widened t kind S ⊆ insert (.primitive kind none) S := by
  unfold widened
  split
  · exact Finset.empty_subset _
  · split
    · exact Finset.subset_insert _ _
    · exact Finset.singleton_subset_iff.mpr (Finset.mem_insert_self _ _)

theorem widened_of_ne_empty {t : Nat} {kind : Kind} {S : Finset Key} (hS : S ≠ ∅) :
    widened t kind S = if KeepsLiterals t kind S then S else {.primitive kind none} :=
  if_neg hS

theorem widened_ne_empty {t : Nat} {kind : Kind} {S : Finset Key} (hS : S ≠ ∅) :
    widened t kind S ≠ ∅ := by
  rw [widened_of_ne_empty hS]
  split
  · exact hS
  · exact Finset.singleton_ne_empty _

/-- What has been widened may take the place of what it was widened from. -/
theorem widened_union_widened (t : Nat) (kind : Kind) (S T : Finset Key) :
    widened t kind (S ∪ widened t kind T) = widened t kind (S ∪ T) := by
  by_cases hT : T = ∅
  · rw [hT]
    rfl
  · have hne : S ∪ T ≠ ∅ := fun h => hT (Finset.union_eq_empty.mp h).2
    rw [widened_of_ne_empty hT]
    by_cases hkeep : KeepsLiterals t kind T
    · rw [if_pos hkeep]
    · -- a bare kind makes everything bare, and so does what made `T` bare
      have hleft : ¬ KeepsLiterals t kind (S ∪ {.primitive kind none}) := fun h =>
        h.1 (Finset.mem_union_right _ (Finset.mem_singleton_self _))
      have hright : ¬ KeepsLiterals t kind (S ∪ T) := fun h =>
        hkeep (h.mono Finset.subset_union_right)
      have hne' : S ∪ {Key.primitive kind none} ≠ ∅ := fun h =>
        Finset.singleton_ne_empty _ (Finset.union_eq_empty.mp h).2
      rw [if_neg hkeep, widened_of_ne_empty hne', widened_of_ne_empty hne, if_neg hleft,
        if_neg hright]

/-- The primitives of a kind with the given literals. -/
def literals (kind : Kind) (ls : List Literal) : List Shape :=
  ls.map fun l => primitive kind (some l)

theorem map_identity_literals (kind : Kind) (ls : List Literal) :
    (literals kind ls).map identity =
      (ls.map (Literal.canonical kind)).map fun l => Key.primitive kind (some l) := by
  rw [literals, List.map_map, List.map_map]
  exact List.map_congr_left fun l _ => identity_primitive kind (some l)

theorem mem_classes_literals {kind : Kind} {ls : List Literal} {k : Key} :
    k ∈ classes (literals kind ls) ↔
      ∃ c ∈ ls.map (Literal.canonical kind), Key.primitive kind (some c) = k := by
  rw [classes, List.mem_toFinset, map_identity_literals, List.mem_map]

/-- Equal literals may be left out. -/
theorem classes_literals_distinctOn (kind : Kind) (ls : List Literal) :
    classes (literals kind (distinctOn (Literal.canonical kind) ls)) =
      classes (literals kind ls) := by
  ext k
  rw [mem_classes_literals, mem_classes_literals]
  simp only [mem_map_distinctOn]

theorem nodup_identity_literals {kind : Kind} {ls : List Literal}
    (h : (ls.map (Literal.canonical kind)).Nodup) : ((literals kind ls).map identity).Nodup := by
  rw [map_identity_literals]
  apply h.map
  intro l m hlm
  exact Option.some.inj (Key.primitive.inj hlm).2

/-- The different literals are counted by their structures. -/
theorem card_classes_literals (kind : Kind) (ls : List Literal) :
    (classes (literals kind ls)).card = (distinctOn (Literal.canonical kind) ls).length := by
  have hnodup : ((literals kind (distinctOn (Literal.canonical kind) ls)).map identity).Nodup :=
    nodup_identity_literals (nodup_map_distinctOn _ _)
  rw [← classes_literals_distinctOn, classes, List.toFinset_card_of_nodup hnodup, List.length_map,
    literals, List.length_map]

/-- The literals among several occurrences, as they are counted. -/
def tokensOf (kind : Kind) (occurrences : List (Option Literal)) : List Literal :=
  (occurrences.filterMap id).map (Literal.token kind)

theorem classes_tokensOf {kind : Kind} {occurrences : List (Option Literal)}
    (hall : occurrences.all Option.isSome = true) :
    classes (literals kind (tokensOf kind occurrences)) =
      classes (occurrences.map (primitive kind)) := by
  ext k
  rw [mem_classes_literals, tokensOf, List.map_map, mem_classes]
  constructor
  · rintro ⟨c, hc, rfl⟩
    obtain ⟨l, hl, rfl⟩ := List.mem_map.mp hc
    obtain ⟨o, ho, rfl⟩ := List.mem_filterMap.mp hl
    refine ⟨_, List.mem_map_of_mem ho, ?_⟩
    rw [identity_primitive, Function.comp_apply, Literal.canonical_token]
    rfl
  · rintro ⟨s, hs, rfl⟩
    obtain ⟨o, ho, rfl⟩ := List.mem_map.mp hs
    obtain ⟨l, rfl⟩ := Option.isSome_iff_exists.mp (List.all_eq_true.mp hall o ho)
    refine ⟨_, List.mem_map_of_mem (List.mem_filterMap.mpr ⟨some l, ho, rfl⟩), ?_⟩
    rw [identity_primitive, Function.comp_apply, Literal.canonical_token]
    rfl

theorem all_isSome_iff {kind : Kind} {occurrences : List (Option Literal)} :
    occurrences.all Option.isSome = true ↔
      Key.primitive kind none ∉ classes (occurrences.map (primitive kind)) := by
  rw [mem_classes, List.all_eq_true]
  constructor
  · rintro hall ⟨s, hs, hnone⟩
    obtain ⟨o, ho, rfl⟩ := List.mem_map.mp hs
    obtain ⟨l, rfl⟩ := Option.isSome_iff_exists.mp (hall o ho)
    simp at hnone
  · intro hnone o ho
    cases o with
    | some l => rfl
    | none => exact absurd ⟨_, List.mem_map_of_mem ho, identity_primitive kind none⟩ hnone

theorem classes_widen (t : Nat) (kind : Kind) (occurrences : List (Option Literal)) :
    classes (widen t kind occurrences) =
      widened t kind (classes (occurrences.map (primitive kind))) := by
  by_cases hocc : occurrences = []
  · rw [hocc]
    rfl
  · have hne : classes (occurrences.map (primitive kind)) ≠ ∅ := by
      rw [Ne, classes_eq_empty_iff, List.map_eq_nil_iff]
      exact hocc
    rw [widened_of_ne_empty hne, widen, if_neg hocc, ← tokensOf]
    by_cases hkeep : KeepsLiterals t kind (classes (occurrences.map (primitive kind)))
    · -- as many different literals as structures
      have hall := all_isSome_iff.mpr hkeep.1
      have hlen := hkeep.2.2
      rw [← classes_tokensOf hall, card_classes_literals] at hlen
      simp only [hall, hkeep.2.1, hlen, if_pos hkeep]
      exact (classes_literals_distinctOn kind _).trans (classes_tokensOf hall)
    · rw [if_neg hkeep, if_neg]
      · rfl
      · intro h
        simp only [Bool.and_eq_true, decide_eq_true_eq] at h
        obtain ⟨⟨hall, hpos⟩, hlen⟩ := h
        rw [← card_classes_literals, classes_tokensOf hall] at hlen
        exact hkeep ⟨all_isSome_iff.mp hall, hpos, hlen⟩

theorem widen_ne_nil {t : Nat} {kind : Kind} {occurrences : List (Option Literal)}
    (h : occurrences ≠ []) : widen t kind occurrences ≠ [] := by
  rw [Ne, ← classes_eq_empty_iff, classes_widen]
  apply widened_ne_empty
  rwa [Ne, classes_eq_empty_iff, List.map_eq_nil_iff]

end Widening

section Pieces

variable {t : Nat} {F : List Shape}

/-- The primitives of one kind among several structures. -/
def ofKind (kind : Kind) (S : Finset Key) : Finset Key :=
  S.filter (Key.IsOf kind)

theorem exists_of_isOf_identity {kind : Kind} {s : Shape} (h : s.identity.IsOf kind) :
    ∃ l, s = primitive kind l := by
  obtain ⟨l, hl⟩ := h
  cases s with
  | primitive kind' l' =>
      rw [identity_primitive, Key.primitive.injEq] at hl
      exact ⟨l', by rw [hl.1]⟩
  | _ => cases hl

theorem isKept_identity_iff {s : Shape} :
    s.identity.IsKept ↔ s = null ∨ ∃ item, s = array item := by
  cases s <;> simp [identity, key, Key.canonical, Key.IsKept]

theorem isObject_identity_iff {s : Shape} : s.identity.IsObject ↔ ∃ fs, s = object fs := by
  cases s <;> simp [identity, key, Key.canonical, Key.IsObject]

theorem classes_occurrences (F : List Shape) (kind : Kind) :
    classes (((Parts.ofShapes F).occurrences kind).map (primitive kind)) =
      ofKind kind (classes F) := by
  ext k
  rw [ofKind, Finset.mem_filter, mem_classes, mem_classes]
  constructor
  · rintro ⟨s, hs, rfl⟩
    obtain ⟨l, hl, rfl⟩ := List.mem_map.mp hs
    exact ⟨⟨_, mem_occurrences.mp hl, rfl⟩, _, identity_primitive kind l⟩
  · rintro ⟨⟨s, hs, rfl⟩, hkind⟩
    obtain ⟨l, rfl⟩ := exists_of_isOf_identity hkind
    exact ⟨_, List.mem_map_of_mem (mem_occurrences.mpr hs), rfl⟩

theorem mem_classes_flatMap_kinds {shapes : Kind → List Shape} {k : Key} :
    k ∈ classes (Kind.all.flatMap shapes) ↔ ∃ kind, k ∈ classes (shapes kind) := by
  simp only [mem_classes, List.mem_flatMap]
  constructor
  · rintro ⟨s, ⟨kind, -, hs⟩, rfl⟩
    exact ⟨kind, s, hs, rfl⟩
  · rintro ⟨kind, s, hs, rfl⟩
    exact ⟨s, ⟨kind, by cases kind <;> decide, hs⟩, rfl⟩

theorem mem_classes_unless {p : Prop} [Decidable p] {s : Shape} {k : Key} :
    k ∈ classes (if p then [] else [s]) ↔ ¬ p ∧ k = s.identity := by
  split <;> simp_all

/-- Side by side stand the widened primitives, the merged object, and what is left alone. -/
theorem mem_classes_pieces {k : Key} :
    k ∈ classes (pieces t F) ↔
      (∃ kind, k ∈ widened t kind (ofKind kind (classes F))) ∨
      (bodiesOf F ≠ [] ∧ k = (object (mergedFields t (bodiesOf F))).identity) ∨
      (k ∈ classes F ∧ k.IsKept) := by
  -- null and arrays come through as they are
  have hkept : k ∈ classes (Parts.ofShapes F).arrays ∨
        k ∈ classes (if (Parts.ofShapes F).hasNull = true then [null] else []) ↔
      k ∈ classes F ∧ k.IsKept := by
    rw [mem_classes, mem_classes, mem_classes]
    constructor
    · rintro (⟨s, hs, rfl⟩ | ⟨s, hs, rfl⟩)
      · obtain ⟨hmem, harray⟩ := mem_arrays.mp hs
        exact ⟨⟨s, hmem, rfl⟩, isKept_identity_iff.mpr (Or.inr harray)⟩
      · split at hs
        · rename_i hnull
          cases List.mem_singleton.mp hs
          exact ⟨⟨null, hasNull_iff.mp hnull, rfl⟩, isKept_identity_iff.mpr (Or.inl rfl)⟩
        · cases hs
    · rintro ⟨⟨s, hs, rfl⟩, hkept⟩
      rcases isKept_identity_iff.mp hkept with rfl | harray
      · exact Or.inr ⟨null, by simp [hasNull_iff.mpr hs], rfl⟩
      · exact Or.inl ⟨s, mem_arrays.mpr ⟨hs, harray⟩, rfl⟩
  rw [pieces, classes_append, classes_append, classes_append, Finset.mem_union, Finset.mem_union,
    Finset.mem_union, mem_classes_flatMap_kinds, mem_classes_unless, ← hkept]
  simp only [classes_widen, classes_occurrences, or_assoc]

theorem isOf_of_mem_widened {kind : Kind} {S : Finset Key} {k : Key}
    (h : k ∈ widened t kind (ofKind kind S)) : k.IsOf kind := by
  rcases Finset.mem_insert.mp (widened_subset _ _ _ h) with rfl | h
  · exact ⟨none, rfl⟩
  · exact (Finset.mem_filter.mp h).2

/-- The primitives among the pieces are those that were widened. -/
theorem ofKind_classes_pieces (kind : Kind) :
    ofKind kind (classes (pieces t F)) = widened t kind (ofKind kind (classes F)) := by
  ext k
  rw [ofKind, Finset.mem_filter, mem_classes_pieces]
  constructor
  · -- neither the merged object nor what is left alone is a primitive
    rintro ⟨h | ⟨-, rfl⟩ | ⟨-, hkept⟩, hkind⟩
    · obtain ⟨kind', h⟩ := h
      exact (isOf_of_mem_widened h).kind_eq hkind ▸ h
    · obtain ⟨l, hl⟩ := hkind
      cases hl
    · obtain ⟨l, rfl⟩ := hkind
      cases hkept
  · intro h
    exact ⟨Or.inl ⟨kind, h⟩, isOf_of_mem_widened h⟩

/-- Every shape leaves a piece. -/
theorem pieces_ne_nil {G : List Shape} (hG : Flat G) (hne : G ≠ []) : pieces t G ≠ [] := by
  obtain ⟨s, hs⟩ := List.exists_mem_of_ne_nil G hne
  rw [Ne, ← classes_eq_empty_iff, ← Ne, ← Finset.nonempty_iff_ne_empty]
  have hkept : s.identity.IsKept → (classes (pieces t G)).Nonempty := fun h =>
    ⟨_, mem_classes_pieces.mpr (Or.inr (Or.inr ⟨identity_mem_classes hs, h⟩))⟩
  cases hG.regular s hs with
  | null => exact hkept trivial
  | array _ => exact hkept trivial
  | @primitive kind l _ =>
      have hmem : (primitive kind l).identity ∈ ofKind kind (classes G) :=
        Finset.mem_filter.mpr ⟨identity_mem_classes hs, _, identity_primitive kind l⟩
      have hwide : widened t kind (ofKind kind (classes G)) ≠ ∅ :=
        widened_ne_empty (Finset.ne_empty_of_mem hmem)
      obtain ⟨k, hk⟩ := Finset.nonempty_iff_ne_empty.mpr hwide
      exact ⟨k, mem_classes_pieces.mpr (Or.inl ⟨kind, hk⟩)⟩
  | object _ _ =>
      have hbody : bodiesOf G ≠ [] := List.ne_nil_of_mem (mem_bodiesOf.mpr hs)
      exact ⟨_, mem_classes_pieces.mpr (Or.inr (Or.inl ⟨hbody, rfl⟩))⟩
  | union _ _ _ => exact absurd (hG.noUnion _ hs) (by simp [isUnion])

end Pieces

section Unite

variable {P Q : List Shape}

theorem unite_of_single (hP : Flat P) {s : Shape} (h : distinct P = [s]) : unite P = s := by
  rw [unite, flatten_eq_self hP.noUnion, h]

theorem unite_of_several (hP : Flat P) (h : 2 ≤ (distinct P).length) :
    unite P = .union (distinct P) := by
  rw [unite, flatten_eq_self hP.noUnion]
  split
  · rename_i hnil
    simp [hnil] at h
  · rename_i s hs
    simp [hs] at h
  · rfl

/-- There is nothing to unite, a single structure, or there are several. -/
theorem length_distinct_cases (P : List Shape) :
    P = [] ∨ (∃ s, distinct P = [s]) ∨ 2 ≤ (distinct P).length := by
  match h : distinct P with
  | [] =>
      left
      rw [← classes_eq_empty_iff, ← classes_distinct, h, classes_nil]
  | [s] => exact Or.inr (Or.inl ⟨s, rfl⟩)
  | s :: r :: rest => exact Or.inr (Or.inr (by simp))

theorem regular_union_distinct (hP : Flat P) (hne : P ≠ []) : (union (distinct P)).Regular := by
  apply Regular.union _ hP.distinct.noUnion hP.distinct.regular
  rwa [Ne, ← classes_eq_empty_iff, classes_distinct, classes_eq_empty_iff]

theorem regular_unite (hP : Flat P) : (unite P).Regular := by
  rcases length_distinct_cases P with rfl | ⟨s, hs⟩ | htwo
  · exact regular_unknown
  · rw [unite_of_single hP hs]
    exact hP.distinct.regular s (by simp [hs])
  · rw [unite_of_several hP htwo]
    apply regular_union_distinct hP
    rintro rfl
    simp [distinct, distinctOn] at htwo

/-- The members of a union are those that were united. -/
theorem classes_members_unite (hP : Flat P) (hne : P ≠ []) :
    classes (unite P).members = classes P := by
  rcases length_distinct_cases P with h | ⟨s, hs⟩ | htwo
  · exact absurd h hne
  · rw [unite_of_single hP hs, members_of_isUnion_eq_false, ← hs, classes_distinct]
    exact hP.distinct.noUnion s (by simp [hs])
  · rw [unite_of_several hP htwo, members, classes_distinct]

theorem flat_members_unite (hP : Flat P) : Flat (unite P).members := by
  have hreg := regular_unite hP
  exact ⟨fun s hs => (hreg.of_mem_members hs).1, fun s hs => (hreg.of_mem_members hs).2⟩

theorem identity_of_single {P : List Shape} {s : Shape} {k : Key} (hs : distinct P = [s])
    (h : classes P = {k}) : s.identity = k := by
  rw [← classes_distinct, hs] at h
  simpa using h

theorem identity_unite_of_single {P : List Shape} (hP : Flat P) {k : Key} (h : classes P = {k}) :
    (unite P).identity = k := by
  have hone : (distinct P).length = 1 := by
    rw [length_distinct, h, Finset.card_singleton]
  obtain ⟨s, hs⟩ := List.length_eq_one_iff.mp hone
  rw [unite_of_single hP hs]
  exact identity_of_single hs h

theorem identity_unite_congr (hP : Flat P) (hQ : Flat Q) (h : classes P = classes Q) :
    (unite P).identity = (unite Q).identity := by
  have hlen : (distinct P).length = (distinct Q).length := by
    rw [length_distinct, length_distinct, h]
  rcases length_distinct_cases P with rfl | ⟨s, hs⟩ | htwo
  · rw [classes_eq_empty_iff.mp (h.symm.trans classes_nil)]
  · obtain ⟨r, hr⟩ := List.length_eq_one_iff.mp (hlen.symm.trans (by simp [hs]))
    have hclasses : classes [s] = classes [r] := by
      rw [← hs, ← hr, classes_distinct, classes_distinct, h]
    rw [unite_of_single hP hs, unite_of_single hQ hr]
    simpa using hclasses
  · have hP' : P ≠ [] := by
      rintro rfl
      simp [distinct, distinctOn] at htwo
    have hQ' : Q ≠ [] := by
      rwa [Ne, ← classes_eq_empty_iff, ← h, classes_eq_empty_iff]
    rw [unite_of_several hP htwo, unite_of_several hQ (hlen ▸ htwo), identity_union_eq_iff
      (regular_union_distinct hP hP') (regular_union_distinct hQ hQ'), classes_distinct,
      classes_distinct, h]

end Unite

end Shape

end TypeSketch
