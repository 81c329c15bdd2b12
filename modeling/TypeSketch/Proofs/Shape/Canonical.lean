import TypeSketch.Proofs.Shape.Congruence
import TypeSketch.Proofs.Shape.Within

/-!
# Canonical unions

In the unions that merging builds, several unequal members stand in a fixed order, none of them a
union, and of each kind there is either the bare primitive or a few literals.  Main statements:

* `canonicalUnion_distinct_pieces`: the parts of competing shapes, once merged, form such a union;
* `canonical_merged`, `canonical_mergedFields`: shapes whose unions are canonical merge to such
  shapes again.
-/

namespace TypeSketch.Shape

/-- The place of a shape among the members of a union. -/
def rank : Shape → Nat
  | .primitive .string _ => 0
  | .primitive .number _ => 1
  | .primitive .boolean _ => 2
  | .object _ => 3
  | .array _ => 4
  | .null => 5
  | .union _ | .hole => 6

/-- The literal of a primitive of the given kind, `none` if it is bare. -/
def literal? (kind : Kind) : Shape → Option (Option Literal)
  | .primitive kind' l => if kind' = kind then some l else none
  | _ => none

/-- What the primitives of one kind among several shapes show. -/
def literalsIn (kind : Kind) (ms : List Shape) : List (Option Literal) :=
  ms.filterMap (literal? kind)

/-- One bare primitive, or at most `threshold` literals. -/
def FewLiterals (threshold : Nat) (ls : List (Option Literal)) : Prop :=
  ls = [none] ∨ (∀ l ∈ ls, l ≠ none) ∧ ls.length ≤ threshold

/-- Shapes in the order of their ranks. -/
def Ordered (ms : List Shape) : Prop :=
  ms.Pairwise fun m n => m.rank ≤ n.rank

/-- The members of a union in canonical form. -/
structure CanonicalUnion (threshold : Nat) (ms : List Shape) : Prop where
  several : 2 ≤ ms.length
  flat : ∀ m ∈ ms, m.isUnion = false
  unequal : ms.Pairwise fun m n => m.same n = false
  ordered : Ordered ms
  oneObject : (ms.filterMap fields?).length ≤ 1
  oneNull : (ms.filter isNull).length ≤ 1
  literals : ∀ kind, FewLiterals threshold (literalsIn kind ms)

/-- A shape whose unions are canonical, and which has no literals where none are tracked. -/
structure Canonical (threshold : Nat) (s : Shape) : Prop where
  unions : ∀ ms, Within (.union ms) s → CanonicalUnion threshold ms
  bare : threshold = 0 → ∀ kind l, ¬ Within (.primitive kind (some l)) s

section Forms

variable {t : Nat}

theorem Canonical.of_within {r s : Shape} (hs : s.Canonical t) (h : Within r s) :
    r.Canonical t where
  unions ms hms := hs.unions ms (hms.trans h)
  bare ht kind l hl := hs.bare ht kind l (hl.trans h)

theorem Canonical.content {fs : List (Field Shape)} (h : (Shape.object fs).Canonical t)
    {f : Field Shape} (hf : f ∈ fs) : f.content.Canonical t :=
  h.of_within (.content hf (.refl _))

theorem Canonical.of_mem_members {s m : Shape} (hs : s.Canonical t) (hm : m ∈ s.members) :
    m.Canonical t := by
  cases s with
  | union ms => exact hs.of_within (.member hm (.refl m))
  | _ => cases List.mem_singleton.mp hm; exact hs

theorem canonical_null : Canonical t .null where
  unions _ h := by cases h
  bare _ _ _ h := by cases h

theorem canonical_primitive (kind : Kind) {l : Option Literal} (hl : l ≠ none → 0 < t) :
    Canonical t (.primitive kind l) where
  unions _ h := by cases h
  bare hzero _ _ h := by
    cases h
    exact absurd hzero (Nat.ne_of_gt (hl (Option.some_ne_none _)))

theorem canonical_unknown : Canonical t unknown :=
  canonical_primitive .string fun h => absurd rfl h

theorem Canonical.array {s : Shape} (hs : s.Canonical t) : (Shape.array s).Canonical t where
  unions ms h := by
    cases h with
    | item h => exact hs.unions ms h
  bare ht kind l h := by
    cases h with
    | item h => exact hs.bare ht kind l h

theorem canonical_object {fs : List (Field Shape)} (h : ∀ f ∈ fs, f.content.Canonical t) :
    Canonical t (.object fs) where
  unions ms hms := by
    cases hms with
    | content hf hms => exact (h _ hf).unions ms hms
  bare ht kind l hl := by
    cases hl with
    | content hf hl => exact (h _ hf).bare ht kind l hl

theorem CanonicalUnion.canonical {ms : List Shape} (hms : CanonicalUnion t ms)
    (h : ∀ m ∈ ms, m.Canonical t) : Canonical t (.union ms) where
  unions ns hns := by
    cases hns with
    | refl => exact hms
    | member hm hns => exact (h _ hm).unions ns hns
  bare ht kind l hl := by
    cases hl with
    | member hm hl => exact (h _ hm).bare ht kind l hl

end Forms

section Widening

variable {t : Nat}

/-- The primitives of a kind are widened to the bare one or to a few literals. -/
theorem widen_cases (t : Nat) (kind : Kind) (occurrences : List (Option Literal)) :
    widen t kind occurrences = [] ∨ widen t kind occurrences = [.primitive kind none] ∨
      0 < t ∧ ∃ ls, ls.length ≤ t ∧ (ls.map (Literal.canonical kind)).Nodup ∧
        widen t kind occurrences = literals kind ls := by
  rw [widen]
  split
  · exact Or.inl rfl
  · dsimp only
    split
    · rename_i hkeep
      simp only [Bool.and_eq_true, decide_eq_true_eq] at hkeep
      exact Or.inr (Or.inr ⟨hkeep.1.2, _, hkeep.2, nodup_map_distinctOn _ _, rfl⟩)
    · exact Or.inr (Or.inl rfl)

theorem eq_primitive_of_mem_widen {kind : Kind} {occurrences : List (Option Literal)} {s : Shape}
    (hs : s ∈ widen t kind occurrences) :
    ∃ l, s = .primitive kind l ∧ (l ≠ none → 0 < t) := by
  rcases widen_cases t kind occurrences with h | h | ⟨ht, ls, -, -, h⟩
  · rw [h] at hs
    cases hs
  · rw [h] at hs
    exact ⟨none, List.mem_singleton.mp hs, fun hne => absurd rfl hne⟩
  · rw [h] at hs
    obtain ⟨l, -, rfl⟩ := List.mem_map.mp hs
    exact ⟨some l, rfl, fun _ => ht⟩

theorem canonical_of_mem_widen {kind : Kind} {occurrences : List (Option Literal)} :
    ∀ s ∈ widen t kind occurrences, s.Canonical t := by
  intro s hs
  obtain ⟨l, rfl, hl⟩ := eq_primitive_of_mem_widen hs
  exact canonical_primitive kind hl

theorem noUnion_widen (kind : Kind) (occurrences : List (Option Literal)) :
    ∀ s ∈ widen t kind occurrences, s.isUnion = false := by
  intro s hs
  obtain ⟨l, rfl, -⟩ := eq_primitive_of_mem_widen hs
  rfl

theorem rank_of_mem_widen (kind : Kind) {occurrences : List (Option Literal)} :
    ∀ s ∈ widen t kind occurrences, s.rank = rank (.primitive kind none) := by
  intro s hs
  obtain ⟨l, rfl, -⟩ := eq_primitive_of_mem_widen hs
  cases kind <;> rfl

/-- Widening leaves no literal twice. -/
theorem distinct_widen (t : Nat) (kind : Kind) (occurrences : List (Option Literal)) :
    distinct (widen t kind occurrences) = widen t kind occurrences := by
  apply distinctOn_eq_self
  rcases widen_cases t kind occurrences with h | h | ⟨-, ls, -, hnodup, h⟩
  · rw [h]
    exact List.nodup_nil
  · rw [h]
    exact List.nodup_singleton _
  · rw [h]
    exact nodup_identity_literals hnodup

theorem fewLiterals_nil : FewLiterals t [] :=
  Or.inr ⟨fun _ h => absurd h List.not_mem_nil, Nat.zero_le t⟩

theorem fewLiterals_widen (kind : Kind) (occurrences : List (Option Literal)) :
    FewLiterals t (literalsIn kind (widen t kind occurrences)) := by
  rcases widen_cases t kind occurrences with h | h | ⟨-, ls, hlen, -, h⟩
  · rw [h]
    exact fewLiterals_nil
  · rw [h]
    left
    simp [literalsIn, literal?]
  · have hshown : literalsIn kind (literals kind ls) = ls.map some := by
      rw [literalsIn, literals, List.filterMap_map, ← List.filterMap_eq_map]
      congr 1
      funext l
      simp [literal?]
    rw [h, hshown]
    refine Or.inr ⟨?_, by rwa [List.length_map]⟩
    intro l hl
    obtain ⟨m, -, rfl⟩ := List.mem_map.mp hl
    exact Option.some_ne_none m

theorem FewLiterals.sublist {ls ms : List (Option Literal)} (h : FewLiterals t ms)
    (hsub : ls.Sublist ms) : FewLiterals t ls := by
  rcases h with rfl | ⟨hsome, hlen⟩
  · rcases List.sublist_singleton.mp hsub with rfl | rfl
    · exact fewLiterals_nil
    · exact Or.inl rfl
  · exact Or.inr ⟨fun l hl => hsome l (hsub.subset hl), hsub.length_le.trans hlen⟩

theorem literalsIn_append (kind : Kind) (xs ys : List Shape) :
    literalsIn kind (xs ++ ys) = literalsIn kind xs ++ literalsIn kind ys :=
  List.filterMap_append

theorem ordered_of_rank_eq {xs : List Shape} {r : Nat} (h : ∀ s ∈ xs, s.rank = r) : Ordered xs :=
  List.pairwise_of_forall_mem_list fun a ha b hb => by rw [h a ha, h b hb]

theorem Ordered.append {xs ys : List Shape} (hxs : Ordered xs) (hys : Ordered ys)
    (h : ∀ s ∈ xs, ∀ r ∈ ys, s.rank ≤ r.rank) : Ordered (xs ++ ys) :=
  List.pairwise_append.mpr ⟨hxs, hys, h⟩

end Widening

section Pieces

variable {t : Nat} {F : List Shape}

/-- The primitives among the pieces. -/
def widenedKinds (threshold : Nat) (flat : List Shape) : List Shape :=
  Kind.all.flatMap fun kind => widen threshold kind ((Parts.ofShapes flat).occurrences kind)

/-- The merged object, if there are objects. -/
def mergedBody (threshold : Nat) (flat : List Shape) : List Shape :=
  if bodiesOf flat = [] then [] else [.object (mergedFields threshold (bodiesOf flat))]

def keptNull (flat : List Shape) : List Shape :=
  if (Parts.ofShapes flat).hasNull then [.null] else []

theorem pieces_eq (t : Nat) (F : List Shape) :
    pieces t F = widenedKinds t F ++ mergedBody t F ++ (Parts.ofShapes F).arrays ++ keptNull F := rfl

theorem eq_primitive_of_mem_widenedKinds {s : Shape} (hs : s ∈ widenedKinds t F) :
    ∃ kind l, s = .primitive kind l ∧ (l ≠ none → 0 < t) := by
  obtain ⟨kind, -, hs⟩ := List.mem_flatMap.mp hs
  exact ⟨kind, eq_primitive_of_mem_widen hs⟩

theorem eq_object_of_mem_mergedBody {s : Shape} (hs : s ∈ mergedBody t F) :
    bodiesOf F ≠ [] ∧ s = .object (mergedFields t (bodiesOf F)) := by
  rw [mergedBody] at hs
  split at hs
  · cases hs
  · exact ⟨‹_›, List.mem_singleton.mp hs⟩

theorem eq_null_of_mem_keptNull {s : Shape} (hs : s ∈ keptNull F) : s = .null := by
  rw [keptNull] at hs
  split at hs
  · exact List.mem_singleton.mp hs
  · cases hs

theorem ordered_widenedKinds : Ordered (widenedKinds t F) := by
  have hkind : ∀ kind, Ordered (widen t kind ((Parts.ofShapes F).occurrences kind)) :=
    fun kind => ordered_of_rank_eq (rank_of_mem_widen kind)
  rw [widenedKinds, Kind.all, List.flatMap_cons, List.flatMap_cons, List.flatMap_singleton]
  refine (hkind .string).append ((hkind .number).append (hkind .boolean) ?_) ?_
  · intro s hs r hr
    rw [rank_of_mem_widen _ s hs, rank_of_mem_widen _ r hr]
    decide
  · intro s hs r _
    rw [rank_of_mem_widen _ s hs]
    exact Nat.zero_le _

theorem ordered_pieces : Ordered (pieces t F) := by
  have hkinds : ∀ s ∈ widenedKinds t F, s.rank ≤ 2 := by
    intro s hs
    obtain ⟨kind, l, rfl, -⟩ := eq_primitive_of_mem_widenedKinds hs
    cases kind <;> simp [rank]
  have hbody : ∀ s ∈ mergedBody t F, s.rank = 3 := by
    intro s hs
    rw [(eq_object_of_mem_mergedBody hs).2]
    rfl
  have harrays : ∀ s ∈ (Parts.ofShapes F).arrays, s.rank = 4 := by
    intro s hs
    obtain ⟨-, item, rfl⟩ := mem_arrays.mp hs
    rfl
  have hnull : ∀ s ∈ keptNull F, s.rank = 5 := by
    intro s hs
    rw [eq_null_of_mem_keptNull hs]
    rfl
  rw [pieces_eq]
  refine ((ordered_widenedKinds.append (ordered_of_rank_eq hbody) ?_).append
    (ordered_of_rank_eq harrays) ?_).append (ordered_of_rank_eq hnull) ?_
  · intro s hs r hr
    have hle := hkinds s hs
    have hrank := hbody r hr
    omega
  · intro s hs r hr
    grind
  · intro s hs r hr
    grind

/-! What is asked of the shapes of one form is answered by their part of the pieces alone. -/

section Selection

variable {α : Type} {select : Shape → Option α}

theorem filterMap_pieces (select : Shape → Option α) :
    (pieces t F).filterMap select = (widenedKinds t F).filterMap select ++
      (mergedBody t F).filterMap select ++ (Parts.ofShapes F).arrays.filterMap select ++
      (keptNull F).filterMap select := by
  rw [pieces_eq, List.filterMap_append, List.filterMap_append, List.filterMap_append]

theorem filterMap_widen_eq_nil {kind : Kind} {occurrences : List (Option Literal)}
    (h : ∀ l, select (.primitive kind l) = none) :
    (widen t kind occurrences).filterMap select = [] := by
  rw [List.filterMap_eq_nil_iff]
  intro s hs
  obtain ⟨l, rfl, -⟩ := eq_primitive_of_mem_widen hs
  exact h l

theorem filterMap_widenedKinds_eq_nil (h : ∀ kind l, select (.primitive kind l) = none) :
    (widenedKinds t F).filterMap select = [] := by
  rw [widenedKinds, List.filterMap_flatMap, List.flatMap_eq_nil_iff]
  exact fun kind _ => filterMap_widen_eq_nil (h kind)

theorem filterMap_mergedBody_eq_nil (h : ∀ fs, select (.object fs) = none) :
    (mergedBody t F).filterMap select = [] := by
  rw [List.filterMap_eq_nil_iff]
  intro s hs
  rw [(eq_object_of_mem_mergedBody hs).2, h]

theorem filterMap_arrays_eq_nil (h : ∀ item, select (.array item) = none) :
    (Parts.ofShapes F).arrays.filterMap select = [] := by
  rw [List.filterMap_eq_nil_iff]
  intro s hs
  obtain ⟨-, item, rfl⟩ := mem_arrays.mp hs
  exact h item

theorem filterMap_keptNull_eq_nil (h : select .null = none) :
    (keptNull F).filterMap select = [] := by
  rw [List.filterMap_eq_nil_iff]
  intro s hs
  rw [eq_null_of_mem_keptNull hs, h]

end Selection

theorem literalsIn_widen_of_ne {kind kind' : Kind} (h : kind' ≠ kind)
    (occurrences : List (Option Literal)) : literalsIn kind (widen t kind' occurrences) = [] :=
  filterMap_widen_eq_nil fun _ => if_neg h

/-- Only the primitives of a kind count for its literals. -/
theorem literalsIn_pieces (kind : Kind) :
    literalsIn kind (pieces t F) =
      literalsIn kind (widen t kind ((Parts.ofShapes F).occurrences kind)) := by
  have hkinds : literalsIn kind (widenedKinds t F) =
      literalsIn kind (widen t kind ((Parts.ofShapes F).occurrences kind)) := by
    rw [widenedKinds, Kind.all, List.flatMap_cons, List.flatMap_cons, List.flatMap_singleton,
      literalsIn_append, literalsIn_append]
    cases kind <;> simp [literalsIn_widen_of_ne]
  rw [literalsIn, filterMap_pieces, filterMap_mergedBody_eq_nil fun _ => rfl,
    filterMap_arrays_eq_nil fun _ => rfl, filterMap_keptNull_eq_nil rfl, List.append_nil,
    List.append_nil, List.append_nil]
  exact hkinds

theorem length_objects_pieces : ((pieces t F).filterMap fields?).length ≤ 1 := by
  rw [filterMap_pieces, filterMap_widenedKinds_eq_nil fun _ _ => rfl,
    filterMap_arrays_eq_nil fun _ => rfl, filterMap_keptNull_eq_nil rfl, List.nil_append,
    List.append_nil, List.append_nil, mergedBody]
  split <;> simp [fields?]

theorem length_nulls_pieces : ((pieces t F).filter isNull).length ≤ 1 := by
  rw [← List.filterMap_eq_filter, filterMap_pieces, filterMap_widenedKinds_eq_nil fun _ _ => rfl,
    filterMap_mergedBody_eq_nil fun _ => rfl, filterMap_arrays_eq_nil fun _ => rfl,
    List.nil_append, List.nil_append, List.nil_append, keptNull]
  split <;> simp [isNull]

theorem pairwise_distinct (shapes : List Shape) :
    (distinct shapes).Pairwise fun m n => m.same n = false := by
  have hnodup : ((distinct shapes).map identity).Nodup := nodup_map_distinctOn identity shapes
  refine (List.pairwise_map.mp hnodup).imp ?_
  intro m n hne
  exact decide_eq_false hne

/-- The pieces of several structures are the members of a canonical union. -/
theorem canonicalUnion_distinct_pieces (hF : Flat F) (h : 2 ≤ (distinct (pieces t F)).length) :
    CanonicalUnion t (distinct (pieces t F)) := by
  have hsub : (distinct (pieces t F)).Sublist (pieces t F) := distinctOn_sublist identity _
  exact
    { several := h
      flat := hF.pieces.distinct.noUnion
      unequal := pairwise_distinct _
      ordered := ordered_pieces.sublist hsub
      oneObject := (hsub.filterMap fields?).length_le.trans length_objects_pieces
      oneNull := (hsub.filter isNull).length_le.trans length_nulls_pieces
      literals := fun kind => by
        have hfew : FewLiterals t (literalsIn kind (pieces t F)) :=
          literalsIn_pieces kind ▸ fewLiterals_widen kind _
        exact hfew.sublist (hsub.filterMap _) }

/-- The primitives to which a kind is widened are the members of a canonical union. -/
theorem canonicalUnion_widen {kind : Kind} {occurrences : List (Option Literal)}
    (h : 2 ≤ (widen t kind occurrences).length) :
    CanonicalUnion t (widen t kind occurrences) := by
  exact
    { several := h
      flat := noUnion_widen kind occurrences
      unequal := distinct_widen t kind occurrences ▸ pairwise_distinct _
      ordered := ordered_of_rank_eq (rank_of_mem_widen kind)
      oneObject := by
        rw [filterMap_widen_eq_nil fun _ => rfl]
        exact Nat.zero_le 1
      oneNull := by
        rw [← List.filterMap_eq_filter, filterMap_widen_eq_nil fun _ => rfl]
        exact Nat.zero_le 1
      literals := fun kind' => by
        by_cases hkind : kind = kind'
        · rw [← hkind]
          exact fewLiterals_widen kind occurrences
        · rw [literalsIn_widen_of_ne hkind]
          exact fewLiterals_nil }

end Pieces

section Merging

variable {t : Nat}

theorem canonical_of_mem_flatten {shapes : List Shape} (h : ∀ s ∈ shapes, s.Canonical t) :
    ∀ s ∈ flatten shapes, s.Canonical t := by
  intro s hs
  obtain ⟨u, hu, hsu⟩ := mem_flatten.mp hs
  exact (h u hu).of_mem_members hsu

theorem canonical_contentsNamed {bodies : List (List (Field Shape))}
    (h : ∀ fs ∈ bodies, (object fs).Canonical t) (name : String) :
    ∀ s ∈ contentsNamed name bodies, s.Canonical t := by
  intro s hs
  obtain ⟨fs, hfs, f, hentry, rfl⟩ := mem_contentsNamed.mp hs
  exact (h fs hfs).content (mem_of_entry_eq_some hentry).1

/-- Among what is blended there may also be literals that were not counted yet. -/
def Blendable (threshold : Nat) (s : Shape) : Prop :=
  (∃ kind l, s = .primitive kind l) ∨ s.Canonical threshold

theorem Blendable.object {fs : List (Field Shape)} (h : Blendable t (.object fs)) :
    Canonical t (.object fs) := by
  rcases h with ⟨kind, l, hl⟩ | h
  · cases hl
  · exact h

theorem Blendable.array {item : Shape} (h : Blendable t (.array item)) :
    Canonical t (.array item) := by
  rcases h with ⟨kind, l, hl⟩ | h
  · cases hl
  · exact h

theorem canonical_pieces_of {F : List Shape} (h : ∀ s ∈ F, Blendable t s)
    (hobject : bodiesOf F ≠ [] → (object (mergedFields t (bodiesOf F))).Canonical t) :
    ∀ s ∈ pieces t F, s.Canonical t := by
  intro s hs
  rw [pieces_eq, List.mem_append, List.mem_append, List.mem_append] at hs
  rcases hs with ((hs | hs) | hs) | hs
  · obtain ⟨kind, -, hs⟩ := List.mem_flatMap.mp hs
    exact canonical_of_mem_widen s hs
  · obtain ⟨hbodies, rfl⟩ := eq_object_of_mem_mergedBody hs
    exact hobject hbodies
  · obtain ⟨hmem, item, rfl⟩ := mem_arrays.mp hs
    exact (h _ hmem).array
  · rw [eq_null_of_mem_keptNull hs]
    exact canonical_null

/-- What a kind is widened to is united to a canonical shape with the same members. -/
theorem canonical_unite_widen (t : Nat) (kind : Kind) {occurrences : List (Option Literal)}
    (h : occurrences ≠ []) : (unite (widen t kind occurrences)).Canonical t ∧
      (unite (widen t kind occurrences)).members = widen t kind occurrences := by
  rw [unite, flatten_eq_self (noUnion_widen kind occurrences), distinct_widen]
  cases hw : widen t kind occurrences with
  | nil => exact absurd hw (widen_ne_nil h)
  | cons s others =>
      cases others with
      | nil =>
          have hmem : s ∈ widen t kind occurrences := hw ▸ List.mem_cons_self
          exact ⟨canonical_of_mem_widen s hmem,
            members_of_isUnion_eq_false (noUnion_widen _ _ s hmem)⟩
      | cons r rest =>
          have hunion : CanonicalUnion t (widen t kind occurrences) :=
            canonicalUnion_widen (by simp [hw])
          have hcanonical : (union (widen t kind occurrences)).Canonical t :=
            hunion.canonical canonical_of_mem_widen
          rw [hw] at hcanonical
          exact ⟨hcanonical, rfl⟩

/-- Canonical pieces are united to a canonical shape. -/
theorem canonical_blend_of {F : List Shape} (hF : Flat F)
    (h : ∀ s ∈ pieces t F, s.Canonical t) : (blend t F).Canonical t := by
  rw [blend]
  rcases length_distinct_cases (pieces t F) with hnil | ⟨s, hs⟩ | htwo
  · rw [hnil]
    exact canonical_unknown
  · rw [unite_of_single hF.pieces hs]
    exact h s (mem_of_mem_distinct (by simp [hs]))
  · rw [unite_of_several hF.pieces htwo]
    exact (canonicalUnion_distinct_pieces hF htwo).canonical fun s hs =>
      h s (mem_of_mem_distinct hs)

theorem canonical_position_of {contents : List Shape} (h : ∀ s ∈ contents, s.Canonical t)
    (hmerged : distinct contents ≠ [] → (merged t (distinct contents)).Canonical t) :
    (position t contents).Canonical t := by
  unfold position
  split
  · exact canonical_unknown
  · rename_i s hs
    exact h s (mem_of_mem_distinct (by simp [hs]))
  · rename_i hd
    rw [hd] at hmerged
    exact hmerged (List.cons_ne_nil _ _)

theorem canonical_mergedFields_of {bodies : List (List (Field Shape))}
    (h : ∀ name, contentsNamed name bodies ≠ [] →
      (position t (contentsNamed name bodies)).Canonical t) :
    (object (mergedFields t bodies)).Canonical t := by
  apply canonical_object
  intro f hf
  obtain ⟨name, hname, rfl⟩ := List.mem_map.mp hf
  apply h
  rw [Ne, contentsNamed_eq_nil_iff, not_not]
  exact hname

/-- Shapes whose unions are canonical merge to such a shape again. -/
theorem canonical_merged {shapes : List Shape} (hreg : ∀ s ∈ shapes, s.Regular)
    (h : ∀ s ∈ shapes, s.Canonical t) : (merged t shapes).Canonical t := by
  refine merging_induction (P := fun shapes => (∀ s ∈ shapes, s.Canonical t) →
    (merged t shapes).Canonical t) ?_ hreg h
  intro shapes hreg ih h
  have hflat := (flat_flatten hreg).distinct
  have hmembers : ∀ s ∈ distinct (flatten shapes), s.Canonical t := fun s hs =>
    canonical_of_mem_flatten h s (mem_of_mem_distinct hs)
  by_cases hone : (distinct (flatten shapes)).length = 1
  · obtain ⟨s, hs⟩ := List.length_eq_one_iff.mp hone
    rw [merged_of_single hs]
    exact hmembers s (by simp [hs])
  · rw [merged_of_several hreg hone]
    apply canonical_blend_of hflat
    apply canonical_pieces_of fun s hs => Or.inr (hmembers s hs)
    intro _
    apply canonical_mergedFields_of
    intro name hname
    have hcontents := canonical_contentsNamed (fun fs hfs => hmembers _ (mem_bodiesOf.mp hfs)) name
    apply canonical_position_of hcontents
    intro _
    exact ih name hname fun s hs => hcontents s (mem_of_mem_distinct hs)

theorem canonical_mergedFields {bodies : List (List (Field Shape))}
    (hreg : ∀ fs ∈ bodies, (object fs).Regular) (h : ∀ fs ∈ bodies, (object fs).Canonical t) :
    (object (mergedFields t bodies)).Canonical t := by
  apply canonical_mergedFields_of
  intro name _
  have hcontents := canonical_contentsNamed h name
  apply canonical_position_of hcontents
  intro _
  exact canonical_merged (regular_distinct (regular_contentsNamed hreg name))
    fun s hs => hcontents s (mem_of_mem_distinct hs)

theorem canonical_pieces {F : List Shape} (hF : Flat F) (h : ∀ s ∈ F, Blendable t s) :
    ∀ s ∈ pieces t F, s.Canonical t := by
  apply canonical_pieces_of h
  intro _
  exact canonical_mergedFields hF.bodies fun fs hfs => (h _ (mem_bodiesOf.mp hfs)).object

theorem canonical_blend {F : List Shape} (hF : Flat F) (h : ∀ s ∈ F, Blendable t s) :
    (blend t F).Canonical t :=
  canonical_blend_of hF (canonical_pieces hF h)

end Merging

end TypeSketch.Shape
