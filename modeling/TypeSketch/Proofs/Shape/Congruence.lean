import TypeSketch.Proofs.Shape.Classes

/-!
# Merging up to structural equality

Main statements, for regular shapes:

* `regular_merged`, `regular_mergedFields`: the results of merging are regular;
* `identity_merged_congr`, `identity_mergedFields_congr`: what merging yields depends on nothing
  but which structures compete;
* `merging_congr`: so the operations give equal shapes for lists whose shapes are equal to each
  other's.
-/

namespace TypeSketch.Shape

variable {t : Nat}

section Regularity

theorem kind_token {kind : Kind} {l : Literal} (h : l.kind = kind) : (l.token kind).kind = kind :=
  (Literal.isToken_token h).1

theorem flat_widen {kind : Kind} {occurrences : List (Option Literal)}
    (h : ∀ l, some l ∈ occurrences → l.kind = kind) : Flat (widen t kind occurrences) := by
  have hliteral : ∀ s ∈ widen t kind occurrences,
      ∃ o : Option Literal, s = primitive kind o ∧ ∀ l ∈ o, l.kind = kind := by
    intro s hs
    rw [widen] at hs
    split at hs
    · cases hs
    · dsimp only at hs
      split at hs
      · obtain ⟨l, hl, rfl⟩ := List.mem_map.mp hs
        obtain ⟨m, hm, rfl⟩ := List.mem_map.mp (mem_of_mem_distinctOn _ hl)
        obtain ⟨o, ho, rfl⟩ := List.mem_filterMap.mp hm
        refine ⟨_, rfl, fun l' hl' => ?_⟩
        cases hl'
        exact kind_token (h m ho)
      · cases List.mem_singleton.mp hs
        exact ⟨none, rfl, fun l hl => by cases hl⟩
  constructor
  · intro s hs
    obtain ⟨o, rfl, ho⟩ := hliteral s hs
    exact .primitive ho
  · intro s hs
    obtain ⟨o, rfl, -⟩ := hliteral s hs
    rfl

theorem flat_pieces {F : List Shape} (hF : Flat F)
    (hobject : (object (mergedFields t (bodiesOf F))).Regular) : Flat (pieces t F) := by
  have hprims : Flat (Kind.all.flatMap fun kind =>
      widen t kind ((Parts.ofShapes F).occurrences kind)) := by
    refine flat_flatMap fun kind _ => flat_widen fun l hl => ?_
    cases hF.regular _ (mem_occurrences.mp hl) with
    | primitive hkind => exact hkind l rfl
  have hobjects : Flat (if bodiesOf F = [] then []
      else [object (mergedFields t (bodiesOf F))]) := by
    split
    · exact flat_nil
    · exact flat_singleton hobject rfl
  have harrays : Flat (Parts.ofShapes F).arrays :=
    ⟨fun s hs => hF.regular s (mem_arrays.mp hs).1, fun s hs => hF.noUnion s (mem_arrays.mp hs).1⟩
  have hnull : Flat (if (Parts.ofShapes F).hasNull then [null] else []) := by
    split
    · exact flat_singleton .null rfl
    · exact flat_nil
  exact ((hprims.append hobjects).append harrays).append hnull

theorem regular_object_mergedFields_of {bodies : List (List (Field Shape))}
    (h : ∀ name, contentsNamed name bodies ≠ [] →
      (position t (contentsNamed name bodies)).Regular) :
    (object (mergedFields t bodies)).Regular := by
  apply Regular.object
  · rw [names_mergedFields]
    exact nodup_fieldNames bodies
  · intro f hf
    obtain ⟨name, hname, rfl⟩ := List.mem_map.mp hf
    apply h
    rw [Ne, contentsNamed_eq_nil_iff, not_not]
    exact hname

theorem regular_position_of {contents : List Shape} (hreg : ∀ s ∈ contents, s.Regular)
    (hmerged : (merged t (distinct contents)).Regular) : (position t contents).Regular := by
  unfold position
  split
  · exact regular_unknown
  · rename_i s hs
    exact hreg s (mem_of_mem_distinct (by simp [hs]))
  · rename_i h
    rwa [h] at hmerged

/-- Regular shapes merge to regular ones. -/
theorem regular_merged {shapes : List Shape} (hreg : ∀ s ∈ shapes, s.Regular) :
    (merged t shapes).Regular := by
  refine merging_induction (P := fun shapes => (merged t shapes).Regular) ?_ hreg
  intro shapes hreg ih
  have hflat := (flat_flatten hreg).distinct
  by_cases hone : (distinct (flatten shapes)).length = 1
  · obtain ⟨s, hs⟩ := List.length_eq_one_iff.mp hone
    rw [merged_of_single hs]
    exact hflat.regular s (by simp [hs])
  · rw [merged_of_several hreg hone, blend]
    refine regular_unite (flat_pieces hflat (regular_object_mergedFields_of fun name hname => ?_))
    exact regular_position_of (regular_contentsNamed hflat.bodies name) (ih name hname)

theorem regular_position {contents : List Shape} (hreg : ∀ s ∈ contents, s.Regular) :
    (position t contents).Regular :=
  regular_position_of hreg (regular_merged (regular_distinct hreg))

/-- Regular objects merge to a regular one. -/
theorem regular_mergedFields {bodies : List (List (Field Shape))}
    (hreg : ∀ fs ∈ bodies, (object fs).Regular) : (object (mergedFields t bodies)).Regular :=
  regular_object_mergedFields_of fun name _ => regular_position (regular_contentsNamed hreg name)

theorem Flat.pieces {F : List Shape} (hF : Flat F) : Flat (pieces t F) :=
  flat_pieces hF (regular_mergedFields hF.bodies)

theorem regular_blend {F : List Shape} (hF : Flat F) : (blend t F).Regular :=
  regular_unite hF.pieces

end Regularity

section Fields

variable {B C : List (List (Field Shape))}

/-- The structures of several objects. -/
def bodyClasses (bodies : List (List (Field Shape))) : Finset Key :=
  classes (bodies.map object)

theorem mem_bodyClasses_bodiesOf {F : List Shape} {k : Key} :
    k ∈ bodyClasses (bodiesOf F) ↔ k ∈ classes F ∧ k.IsObject := by
  rw [bodyClasses, mem_classes, mem_classes]
  constructor
  · rintro ⟨s, hs, rfl⟩
    obtain ⟨fs, hfs, rfl⟩ := List.mem_map.mp hs
    exact ⟨⟨_, mem_bodiesOf.mp hfs, rfl⟩, isObject_identity_iff.mpr ⟨fs, rfl⟩⟩
  · rintro ⟨⟨s, hs, rfl⟩, hobject⟩
    obtain ⟨fs, rfl⟩ := isObject_identity_iff.mp hobject
    exact ⟨_, List.mem_map_of_mem (mem_bodiesOf.mpr hs), rfl⟩

/-- An object among `B` has its like among `C`. -/
theorem exists_entry_eq (hB : ∀ fs ∈ B, (object fs).Regular) (hC : ∀ fs ∈ C, (object fs).Regular)
    (h : bodyClasses B ⊆ bodyClasses C) {fs : List (Field Shape)} (hfs : fs ∈ B) :
    ∃ gs ∈ C, ∀ name, (entry name fs).map (Field.map identity) =
      (entry name gs).map (Field.map identity) := by
  obtain ⟨s, hs, heq⟩ := mem_classes.mp (h (identity_mem_classes (List.mem_map_of_mem hfs)))
  obtain ⟨gs, hgs, rfl⟩ := List.mem_map.mp hs
  refine ⟨gs, hgs, ?_⟩
  rw [← identity_object_eq_iff (hB fs hfs).names_nodup (hC gs hgs).names_nodup]
  exact heq.symm

theorem classes_contentsNamed_mono (hB : ∀ fs ∈ B, (object fs).Regular)
    (hC : ∀ fs ∈ C, (object fs).Regular) (h : bodyClasses B ⊆ bodyClasses C) (name : String) :
    classes (contentsNamed name B) ⊆ classes (contentsNamed name C) := by
  intro k hk
  obtain ⟨s, hs, rfl⟩ := mem_classes.mp hk
  obtain ⟨fs, hfs, f, hf, rfl⟩ := mem_contentsNamed.mp hs
  obtain ⟨gs, hgs, heq⟩ := exists_entry_eq hB hC h hfs
  have hname := heq name
  rw [hf, Option.map_some] at hname
  obtain ⟨g, hg, hfg⟩ := Option.map_eq_some_iff.mp hname.symm
  have hcontent : g.content.identity = f.content.identity := congrArg Field.content hfg
  rw [← hcontent]
  exact identity_mem_classes (mem_contentsNamed.mpr ⟨gs, hgs, g, hg, rfl⟩)

theorem length_fieldsNamed_lt_iff {name : String} :
    (fieldsNamed name B).length < B.length ↔ ∃ fs ∈ B, entry name fs = none := by
  rw [fieldsNamed_eq]
  -- the name is lacking as soon as one object is left out
  induction B with
  | nil => simp
  | cons fs B ih =>
      have hle := List.length_filterMap_le (entry name) B
      cases hfs : entry name fs with
      | none => simp [hfs]; omega
      | some f => simp [hfs, ih]

/-- A merged field is optional when in some object it is missing or optional. -/
theorem isOptionalIn_iff {name : String} :
    isOptionalIn B name = true ↔ ∃ fs ∈ B, ∀ f ∈ entry name fs, f.isOptional = true := by
  rw [isOptionalIn, Bool.or_eq_true, decide_eq_true_eq, length_fieldsNamed_lt_iff, List.any_eq_true]
  constructor
  · rintro (⟨fs, hfs, hnone⟩ | ⟨f, hf, hflag⟩)
    · refine ⟨fs, hfs, fun f hf => ?_⟩
      rw [hnone] at hf
      cases hf
    · obtain ⟨fs, hfs, hentry⟩ := mem_fieldsNamed.mp hf
      refine ⟨fs, hfs, fun g hg => ?_⟩
      rw [hentry] at hg
      cases hg
      exact hflag
  · rintro ⟨fs, hfs, hall⟩
    cases hentry : entry name fs with
    | none => exact Or.inl ⟨fs, hfs, hentry⟩
    | some f => exact Or.inr ⟨f, mem_fieldsNamed.mpr ⟨fs, hfs, hentry⟩, hall f hentry⟩

theorem isOptionalIn_mono (hB : ∀ fs ∈ B, (object fs).Regular)
    (hC : ∀ fs ∈ C, (object fs).Regular) (h : bodyClasses B ⊆ bodyClasses C) {name : String}
    (hflag : isOptionalIn B name = true) : isOptionalIn C name = true := by
  obtain ⟨fs, hfs, hall⟩ := isOptionalIn_iff.mp hflag
  obtain ⟨gs, hgs, heq⟩ := exists_entry_eq hB hC h hfs
  refine isOptionalIn_iff.mpr ⟨gs, hgs, fun g hg => ?_⟩
  have hname := heq name
  rw [Option.mem_def.mp hg, Option.map_some] at hname
  obtain ⟨f, hf, hfg⟩ := Option.map_eq_some_iff.mp hname
  have hoptional : f.isOptional = g.isOptional :=
    congrArg (fun e : Field Key => e.isOptional) hfg
  rw [← hoptional]
  exact hall f hf

/-- Merged objects are the same when under each name there are contents in both or in neither,
which merge to the same and are equally optional. -/
theorem identity_object_mergedFields_eq
    (hnil : ∀ name, contentsNamed name B = [] ↔ contentsNamed name C = [])
    (hposition : ∀ name, contentsNamed name B ≠ [] →
      (position t (contentsNamed name B)).identity = (position t (contentsNamed name C)).identity)
    (hflag : ∀ name, isOptionalIn B name = isOptionalIn C name) :
    (object (mergedFields t B)).identity = (object (mergedFields t C)).identity := by
  rw [identity_object_eq_iff]
  · intro name
    rw [entry_mergedFields, entry_mergedFields]
    by_cases h : contentsNamed name B = []
    · rw [if_pos h, if_pos ((hnil name).mp h)]
    · rw [if_neg h, if_neg (mt (hnil name).mpr h)]
      simp only [Option.map_some, mergedField, Field.map, hposition name h, hflag name]
  · rw [names_mergedFields]
    exact nodup_fieldNames B
  · rw [names_mergedFields]
    exact nodup_fieldNames C

end Fields

section Congruence

/-- The members of equal shapes are the same structures. -/
theorem classes_members_congr {s r : Shape} (hs : s.Regular) (hr : r.Regular)
    (h : s.identity = r.identity) : classes s.members = classes r.members := by
  by_cases hunion : s.isUnion = true
  · have hunion' := (isUnion_of_identity_eq h).symm.trans hunion
    cases s <;> cases hunion
    cases r <;> cases hunion'
    exact (identity_union_eq_iff hs hr).mp h
  · rw [Bool.not_eq_true] at hunion
    rw [members_of_isUnion_eq_false hunion,
      members_of_isUnion_eq_false ((isUnion_of_identity_eq h).symm.trans hunion)]
    simp [h]

theorem classes_flatten_mono {xs ys : List Shape} (hxs : ∀ s ∈ xs, s.Regular)
    (hys : ∀ s ∈ ys, s.Regular) (h : classes xs ⊆ classes ys) :
    classes (flatten xs) ⊆ classes (flatten ys) := by
  intro k hk
  obtain ⟨m, hm, rfl⟩ := mem_classes.mp hk
  obtain ⟨s, hs, hms⟩ := mem_flatten.mp hm
  obtain ⟨r, hr, hrs⟩ := mem_classes.mp (h (identity_mem_classes hs))
  have hmem := identity_mem_classes hms
  rw [classes_members_congr (hxs s hs) (hys r hr) hrs.symm] at hmem
  obtain ⟨m', hm', heq⟩ := mem_classes.mp hmem
  exact mem_classes.mpr ⟨m', mem_flatten.mpr ⟨r, hr, hm'⟩, heq⟩

theorem classes_flatten_congr {xs ys : List Shape} (hxs : ∀ s ∈ xs, s.Regular)
    (hys : ∀ s ∈ ys, s.Regular) (h : classes xs = classes ys) :
    classes (flatten xs) = classes (flatten ys) :=
  (classes_flatten_mono hxs hys h.subset).antisymm (classes_flatten_mono hys hxs h.superset)

theorem identity_mergedFields_congr_of {B C : List (List (Field Shape))}
    (hB : ∀ fs ∈ B, (object fs).Regular) (hC : ∀ fs ∈ C, (object fs).Regular)
    (h : bodyClasses B = bodyClasses C)
    (hposition : ∀ name, contentsNamed name B ≠ [] →
      classes (contentsNamed name B) = classes (contentsNamed name C) →
      (position t (contentsNamed name B)).identity =
        (position t (contentsNamed name C)).identity) :
    (object (mergedFields t B)).identity = (object (mergedFields t C)).identity := by
  have hcontents : ∀ name, classes (contentsNamed name B) = classes (contentsNamed name C) :=
    fun name => (classes_contentsNamed_mono hB hC h.subset name).antisymm
      (classes_contentsNamed_mono hC hB h.superset name)
  apply identity_object_mergedFields_eq
  · intro name
    rw [← classes_eq_empty_iff, hcontents name, classes_eq_empty_iff]
  · exact fun name hname => hposition name hname (hcontents name)
  · intro name
    rw [Bool.eq_iff_iff]
    exact ⟨isOptionalIn_mono hB hC h.subset, isOptionalIn_mono hC hB h.superset⟩

theorem identity_position_congr_of {xs ys : List Shape} (h : classes xs = classes ys)
    (hmerged : (merged t (distinct xs)).identity = (merged t (distinct ys)).identity) :
    (position t xs).identity = (position t ys).identity := by
  -- as many distinct contents on either side, so that both sides are in the same case
  have hlen : (distinct xs).length = (distinct ys).length := by
    rw [length_distinct, length_distinct, h]
  unfold position
  split <;> rename_i hx <;> split <;> rename_i hy <;> simp [hx, hy] at hlen hmerged ⊢
  · have hclasses : classes (distinct xs) = classes (distinct ys) := by
      rw [classes_distinct, classes_distinct, h]
    simpa [hx, hy] using hclasses
  · exact hmerged

theorem bodyClasses_congr {F G : List Shape} (h : classes F = classes G) :
    bodyClasses (bodiesOf F) = bodyClasses (bodiesOf G) := by
  ext k
  rw [mem_bodyClasses_bodiesOf, mem_bodyClasses_bodiesOf, h]

theorem bodyClasses_eq_empty_iff {B : List (List (Field Shape))} : bodyClasses B = ∅ ↔ B = [] := by
  rw [bodyClasses, classes_eq_empty_iff, List.map_eq_nil_iff]

theorem identity_blend_congr_of {F G : List Shape} (hF : Flat F) (hG : Flat G)
    (h : classes F = classes G)
    (hobject : (object (mergedFields t (bodiesOf F))).identity =
      (object (mergedFields t (bodiesOf G))).identity) :
    (blend t F).identity = (blend t G).identity := by
  apply identity_unite_congr hF.pieces hG.pieces
  ext k
  have hbodies : bodiesOf F ≠ [] ↔ bodiesOf G ≠ [] := by
    rw [Ne, Ne, ← bodyClasses_eq_empty_iff, bodyClasses_congr h, bodyClasses_eq_empty_iff]
  rw [mem_classes_pieces, mem_classes_pieces, h, hobject, hbodies]

/-- The same structures, in whichever order and number, merge to the same. -/
theorem identity_merged_congr {xs ys : List Shape} (hxs : ∀ s ∈ xs, s.Regular)
    (hys : ∀ s ∈ ys, s.Regular) (h : classes (flatten xs) = classes (flatten ys)) :
    (merged t xs).identity = (merged t ys).identity := by
  refine merging_induction (P := fun xs => ∀ {ys : List Shape}, (∀ s ∈ ys, s.Regular) →
    classes (flatten xs) = classes (flatten ys) → (merged t xs).identity = (merged t ys).identity)
    ?_ hxs hys h
  intro xs hxs ih ys hys h
  have hF := (flat_flatten hxs).distinct
  have hG := (flat_flatten hys).distinct
  have hclasses : classes (distinct (flatten xs)) = classes (distinct (flatten ys)) := by
    rw [classes_distinct, classes_distinct, h]
  have hlen : (distinct (flatten xs)).length = (distinct (flatten ys)).length := by
    rw [length_distinct, length_distinct, h]
  by_cases hone : (distinct (flatten xs)).length = 1
  · obtain ⟨s, hs⟩ := List.length_eq_one_iff.mp hone
    obtain ⟨r, hr⟩ := List.length_eq_one_iff.mp (hlen ▸ hone)
    rw [merged_of_single hs, merged_of_single hr]
    simpa [hs, hr] using hclasses
  · -- both sides merge the same fields
    rw [merged_of_several hxs hone, merged_of_several hys (hlen ▸ hone)]
    apply identity_blend_congr_of hF hG hclasses
    apply identity_mergedFields_congr_of hF.bodies hG.bodies (bodyClasses_congr hclasses)
    intro name hname heq
    have hC' := regular_distinct (regular_contentsNamed hF.bodies name)
    have hD' := regular_distinct (regular_contentsNamed hG.bodies name)
    apply identity_position_congr_of heq
    apply ih name hname hD'
    apply classes_flatten_congr hC' hD'
    rw [classes_distinct, classes_distinct, heq]

theorem identity_position_congr {xs ys : List Shape} (hxs : ∀ s ∈ xs, s.Regular)
    (hys : ∀ s ∈ ys, s.Regular) (h : classes xs = classes ys) :
    (position t xs).identity = (position t ys).identity := by
  have hxs' := regular_distinct hxs
  have hys' := regular_distinct hys
  apply identity_position_congr_of h
  apply identity_merged_congr hxs' hys'
  apply classes_flatten_congr hxs' hys'
  rw [classes_distinct, classes_distinct, h]

theorem identity_mergedFields_congr {B C : List (List (Field Shape))}
    (hB : ∀ fs ∈ B, (object fs).Regular) (hC : ∀ fs ∈ C, (object fs).Regular)
    (h : bodyClasses B = bodyClasses C) :
    (object (mergedFields t B)).identity = (object (mergedFields t C)).identity :=
  identity_mergedFields_congr_of hB hC h fun name _ heq =>
    identity_position_congr (regular_contentsNamed hB name) (regular_contentsNamed hC name) heq

theorem identity_blend_congr {F G : List Shape} (hF : Flat F) (hG : Flat G)
    (h : classes F = classes G) : (blend t F).identity = (blend t G).identity :=
  identity_blend_congr_of hF hG h
    (identity_mergedFields_congr hF.bodies hG.bodies (bodyClasses_congr h))

end Congruence

section Singleton

/-- A shape that is blended with nothing else leaves one piece, itself. -/
theorem classes_pieces_singleton {s : Shape} (hs : s.Regular) (hunion : s.isUnion = false)
    (hliteral : ∀ kind l, s = primitive kind (some l) → 0 < t) :
    classes (pieces t [s]) = {s.identity} := by
  cases hs with
  | null => rfl
  | array _ => rfl
  | union _ _ _ => cases hunion
  | @object fs hnames _ =>
      have hpieces : pieces t [object fs] = [object (mergedFields t [fs])] := rfl
      rw [hpieces, mergedFields_singleton t hnames]
      rfl
  | @primitive kind o _ =>
      have hpieces : pieces t [primitive kind o] = widen t kind [o] := by
        have hnil : ∀ kind, widen t kind [] = [] := fun _ => rfl
        cases kind <;>
          simp [pieces, Kind.all, Parts.ofShapes, Parts.add, Parts.occurrences, bodiesOf, hnil]
      have hne : classes [primitive kind o] ≠ ∅ := by
        rw [Ne, classes_eq_empty_iff]
        exact List.cons_ne_nil _ _
      have hone : classes [primitive kind o] = {(primitive kind o).identity} := rfl
      rw [hpieces, classes_widen, List.map_singleton, widened_of_ne_empty hne]
      split
      · rfl
      · -- a single literal stays where any literal may
        rename_i hbare
        cases o with
        | none => rfl
        | some l =>
            refine absurd ⟨?_, hliteral kind l rfl, ?_⟩ hbare
            · rw [hone, Finset.mem_singleton, identity_primitive]
              exact fun h => by cases h
            · rw [hone, Finset.card_singleton]
              exact hliteral kind l rfl

end Singleton

section Cases

variable {xs : List Shape}

theorem position_of_single {s : Shape} (h : distinct xs = [s]) : position t xs = s := by
  rw [position, h]

/-- The contents of a field that are not all the same are merged. -/
theorem identity_position_of_several (hxs : ∀ s ∈ xs, s.Regular)
    (h : 2 ≤ (distinct xs).length) : (position t xs).identity = (merged t xs).identity := by
  have hdistinct := regular_distinct hxs
  have hposition : position t xs = merged t (distinct xs) := by
    unfold position
    split <;> rename_i hd
    · simp [hd] at h
    · simp [hd] at h
    · rw [hd]
  rw [hposition]
  exact identity_merged_congr hdistinct hxs (classes_flatten_congr hdistinct hxs (by simp))

/-- Shapes that are not all the same are blended. -/
theorem identity_merged_of_several (hxs : ∀ s ∈ xs, s.Regular)
    (h : (classes (flatten xs)).card ≠ 1) :
    (merged t xs).identity = (blend t (flatten xs)).identity := by
  rw [merged_of_several hxs (by rwa [length_distinct])]
  exact identity_blend_congr (flat_flatten hxs).distinct (flat_flatten hxs) (classes_distinct _)

theorem identity_merged_of_single {k : Key} (h : classes (flatten xs) = {k}) :
    (merged t xs).identity = k := by
  have hone : (distinct (flatten xs)).length = 1 := by
    rw [length_distinct, h, Finset.card_singleton]
  obtain ⟨s, hs⟩ := List.length_eq_one_iff.mp hone
  rw [merged_of_single hs]
  exact identity_of_single hs h

end Cases

section Operations

variable {xs ys : List Shape}

theorem identity_eq_of_equal? {a b : Shape} (h : a.equal? b = .ok true) :
    a.identity = b.identity := by
  rw [equal?] at h
  split at h
  · exact of_decide_eq_true (Except.ok.inj h)
  · cases h

/-- Where each shape has its equal, there is no structure that the other list lacks. -/
theorem classes_subset_of_equal? (h : ∀ s ∈ xs, ∃ r ∈ ys, s.equal? r = .ok true) :
    classes xs ⊆ classes ys := by
  intro k hk
  obtain ⟨s, hs, rfl⟩ := mem_classes.mp hk
  obtain ⟨r, hr, heq⟩ := h s hs
  exact mem_classes.mpr ⟨r, hr, (identity_eq_of_equal? heq).symm⟩

/-- What the operations on shapes give depends only on the structures among their arguments:
neither on their order and number nor on which of several equal shapes stands for a structure. -/
theorem merging_congr (t : Nat) (hxs : ∀ s ∈ xs, s.Regular) (hys : ∀ s ∈ ys, s.Regular)
    (hxy : ∀ s ∈ xs, ∃ r ∈ ys, s.equal? r = .ok true)
    (hyx : ∀ r ∈ ys, ∃ s ∈ xs, r.equal? s = .ok true) :
    (∃ u w, consolidate t xs = .ok u ∧ consolidate t ys = .ok w ∧ u.equal? w = .ok true) ∧
    (∃ u w, collect xs = .ok u ∧ collect ys = .ok w ∧ u.equal? w = .ok true) ∧
    ((∀ s ∈ xs ++ ys, ∃ fs, s = object fs) →
      ∃ u w, mergeObjects t xs = .ok u ∧ mergeObjects t ys = .ok w ∧ u.equal? w = .ok true) := by
  have hclasses : classes xs = classes ys :=
    (classes_subset_of_equal? hxy).antisymm (classes_subset_of_equal? hyx)
  have hflatten := classes_flatten_congr hxs hys hclasses
  have hF := flat_flatten hxs
  have hG := flat_flatten hys
  refine ⟨⟨_, _, consolidate_eq hxs, consolidate_eq hys, ?_⟩,
    ⟨_, _, collect_eq hxs, collect_eq hys, ?_⟩, fun hobjects => ?_⟩
  · exact equal?_of_identity_eq (regular_merged hxs) (regular_merged hys)
      (identity_merged_congr hxs hys hflatten)
  · rw [← unite_flatten hxs, ← unite_flatten hys]
    exact equal?_of_identity_eq (regular_unite hF) (regular_unite hG)
      (identity_unite_congr hF hG hflatten)
  · obtain ⟨hobjects, hobjects'⟩ := List.forall_mem_append.mp hobjects
    obtain ⟨B, rfl, hB⟩ := exists_bodies fun s hs => ⟨hxs s hs, hobjects s hs⟩
    obtain ⟨C, rfl, hC⟩ := exists_bodies fun s hs => ⟨hys s hs, hobjects' s hs⟩
    exact ⟨_, _, mergeObjects_eq hB, mergeObjects_eq hC,
      equal?_of_identity_eq (regular_mergedFields hB) (regular_mergedFields hC)
        (identity_mergedFields_congr hB hC hclasses)⟩

/-- A label with a text and perhaps a size, a number or null. -/
def label (size : Literal) : Shape :=
  object [⟨"size", union [primitive .number (some size), null], true⟩, ⟨"text", null, false⟩]

/-- A label with its fields and the members of its size the other way round. -/
def turnedLabel (size : Literal) : Shape :=
  object [⟨"text", null, false⟩, ⟨"size", union [null, primitive .number (some size)], true⟩]

theorem merging_congr_labels :
    (∃ u w, consolidate 1 [label (.int 0), object []] = .ok u ∧
      consolidate 1 [object [], turnedLabel (.float (.zero true)), label (.int 0)] = .ok w ∧
      u.equal? w = .ok true) ∧
    (∃ u w, collect [label (.int 0), object []] = .ok u ∧
      collect [object [], turnedLabel (.float (.zero true)), label (.int 0)] = .ok w ∧
      u.equal? w = .ok true) ∧
    (∃ u w, mergeObjects 1 [label (.int 0), object []] = .ok u ∧
      mergeObjects 1 [object [], turnedLabel (.float (.zero true)), label (.int 0)] = .ok w ∧
      u.equal? w = .ok true) := by
  have hliteral : ∀ l : Literal, l.kind = .number → (primitive .number (some l)).Regular :=
    fun l hl => .primitive fun m hm => Option.some.inj hm ▸ hl
  have hunion : ∀ l : Literal, l.kind = .number →
      (union [primitive .number (some l), null]).Regular := fun l hl =>
    .union (List.cons_ne_nil _ _) (by simp [isUnion]) (by simp [hliteral l hl, Regular.null])
  have hturned : ∀ l : Literal, l.kind = .number →
      (union [null, primitive .number (some l)]).Regular := fun l hl =>
    .union (List.cons_ne_nil _ _) (by simp [isUnion]) (by simp [hliteral l hl, Regular.null])
  have hlabel : (label (.int 0)).Regular :=
    .object (by simp) (by simp [hunion (.int 0) rfl, Regular.null])
  have hturnedLabel : (turnedLabel (.float (.zero true))).Regular :=
    .object (by simp) (by simp [hturned (.float (.zero true)) rfl, Regular.null])
  have hempty : (object []).Regular := .object List.nodup_nil fun _ h => by cases h
  have hkind : (Literal.int 0).kind = .number := rfl
  have hkind' : (Literal.float (.zero true)).kind = .number := rfl
  have hzero := (Literal.canonical_eq_iff hkind hkind').mpr
    (.inr ⟨0, by rw [Literal.units?, Int.zero_mul], rfl⟩)
  have hsame : (label (.int 0)).identity = (turnedLabel (.float (.zero true))).identity := by
    rw [label, turnedLabel, identity_object_eq_iff (by simp) (by simp)]
    have hsize : (union [primitive .number (some (.int 0)), null]).identity =
        (union [null, primitive .number (some (.float (.zero true)))]).identity := by
      rw [identity_union_eq_iff (hunion _ rfl) (hturned _ rfl)]
      simp [hzero, Finset.pair_comm]
    intro name
    by_cases hn : "size" = name
    · subst hn
      simp [entry_cons, Field.map, hsize]
    · simp [entry_cons, hn]
  have hequal : ∀ {s : Shape}, s.Regular → s.equal? s = .ok true := fun hs =>
    equal?_of_identity_eq hs hs rfl
  have hback := equal?_of_identity_eq hturnedLabel hlabel hsame.symm
  obtain ⟨hconsolidate, hcollect, hobjects⟩ :=
    merging_congr 1 (show ∀ s ∈ [label (.int 0), object []], s.Regular by simp [hlabel, hempty])
      (show ∀ s ∈ [object [], turnedLabel (.float (.zero true)), label (.int 0)], s.Regular by
        simp [hlabel, hturnedLabel, hempty])
      (by simp [hequal hlabel, hequal hempty])
      (by simp [hequal hlabel, hequal hempty, hback])
  exact ⟨hconsolidate, hcollect, hobjects (by simp [label, turnedLabel])⟩

end Operations

end TypeSketch.Shape
