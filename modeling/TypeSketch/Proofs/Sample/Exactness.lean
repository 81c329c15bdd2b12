import TypeSketch.Proofs.Sample.Outline

/-!
# Exactness of inference

Inference merges the shapes of samples.  `infer` collects the samples themselves: for a place where
several samples were seen it lists the values of each kind, gathers under each name the values of
all objects, and looks into each array on its own.  Main statements:

* `identity_infer`: collecting samples agrees with merging their shapes;
* `exact_inference`: the shape of a sample is what is collected from it, and it does not depend on
  the order or the number of equal items, nor on the order of names.
-/

namespace TypeSketch

namespace Sample

open Shape

/-- The entries of the objects among several samples. -/
def objectsIn (V : List Sample) : List (List (String × Sample)) :=
  V.filterMap fun
    | .record fields => some (settle fields)
    | _ => none

/-- The items of the arrays among several samples. -/
def listsIn (V : List Sample) : List (List Sample) :=
  V.filterMap fun
    | .list items => some items
    | _ => none

/-- The different values of a kind among several samples. -/
def valuesIn (kind : Kind) (V : List Sample) : List Literal :=
  distinctOn (Literal.canonical kind) (V.filterMap fun
    | .scalar l => if l.kind = kind then some l else none
    | _ => none)

def namesIn (objects : List (List (String × Sample))) : List String :=
  distinctOn id (objects.flatMap fun r => r.map (·.1))

/-- The values that objects have under a name. -/
def valuesUnder (name : String) (objects : List (List (String × Sample))) : List Sample :=
  objects.filterMap fun r => r.lookup name

def isMissingIn (name : String) (objects : List (List (String × Sample))) : Bool :=
  objects.any fun r => (r.lookup name).isNone

def isNull : Sample → Bool
  | .null => true
  | _ => false

def isForeign : Sample → Bool
  | .foreign => true
  | _ => false

/-- One primitive for each value of a kind if literals are tracked and there are few enough, else
the bare kind.  Foreign data counts as a text of unknown value. -/
def primitivesIn (threshold : Nat) (kind : Kind) (V : List Sample) : List Shape :=
  if kind = .string ∧ V.any isForeign then [.primitive kind none]
  else if valuesIn kind V = [] then []
  else if 0 < threshold ∧ (valuesIn kind V).length ≤ threshold then
    literals kind (valuesIn kind V)
  else [.primitive kind none]

/-- The only shape, or the union of the shapes up to structural equality. -/
def anyOf (shapes : List Shape) : Shape :=
  match distinct shapes with
  | [s] => s
  | ms => .union ms

theorem sizeOf_value_lt {name : String} {fields : List (String × Sample)} {v : Sample}
    (h : (settle fields).lookup name = some v) : sizeOf v < sizeOf fields := by
  have hmem := mem_of_mem_settle (mem_of_lookup_eq_some h)
  have hlt := List.sizeOf_lt_of_mem hmem
  have hpair : sizeOf v < sizeOf (name, v) := by
    rw [Prod.mk.sizeOf_spec]
    omega
  omega

theorem sizeOf_valuesUnder (name : String) : ∀ V : List Sample,
    sizeOf (valuesUnder name (objectsIn V)) + (objectsIn V).length ≤ sizeOf V
  | [] => by simp [objectsIn, valuesUnder]
  | v :: V => by
      have ih := sizeOf_valuesUnder name V
      cases v with
      | record fields =>
          have hobjects : objectsIn (record fields :: V) = settle fields :: objectsIn V := rfl
          rw [hobjects, valuesUnder, List.filterMap_cons]
          cases h : (settle fields).lookup name with
          | none => simp [valuesUnder] at ih ⊢; omega
          | some u =>
              have hlt := sizeOf_value_lt h
              simp [valuesUnder] at ih ⊢
              omega
      | _ =>
          rw [objectsIn, List.filterMap_cons, ← objectsIn]
          simp only [List.cons.sizeOf_spec]
          omega

theorem sizeOf_lt_of_mem_listsIn {items : List Sample} {V : List Sample}
    (h : items ∈ listsIn V) : sizeOf items < sizeOf V := by
  obtain ⟨v, hv, hitems⟩ := List.mem_filterMap.mp h
  have hlt := List.sizeOf_lt_of_mem hv
  cases v <;> cases hitems
  simp at hlt
  omega

/-- The shape of a place where the samples were seen. -/
def infer (threshold : Nat) (V : List Sample) : Shape :=
  anyOf
    (Kind.all.flatMap (fun kind => primitivesIn threshold kind V) ++
      (if objectsIn V = [] then []
      else [.object ((namesIn (objectsIn V)).map fun name =>
        ⟨name, infer threshold (valuesUnder name (objectsIn V)), isMissingIn name (objectsIn V)⟩)]) ++
      (listsIn V).attach.map (fun items =>
        .array (if items.val = [] then .primitive .string none else infer threshold items.val)) ++
      (if V.any isNull then [.null] else []))
termination_by sizeOf V
decreasing_by
  · rename_i hobjects
    have hsize := sizeOf_valuesUnder name V
    have hpos := List.length_pos_iff.mpr hobjects
    omega
  · exact sizeOf_lt_of_mem_listsIn items.property

/-- What `infer` puts side by side. -/
def collected (threshold : Nat) (V : List Sample) : List Shape :=
  Kind.all.flatMap (fun kind => primitivesIn threshold kind V) ++
    (if objectsIn V = [] then []
    else [.object ((namesIn (objectsIn V)).map fun name =>
      ⟨name, infer threshold (valuesUnder name (objectsIn V)), isMissingIn name (objectsIn V)⟩)]) ++
    (listsIn V).map (fun items =>
      .array (if items = [] then .primitive .string none else infer threshold items)) ++
    (if V.any isNull then [.null] else [])

theorem infer_eq (t : Nat) (V : List Sample) : infer t V = anyOf (collected t V) := by
  rw [infer, collected]
  congr 3
  exact List.attach_map_val (f := fun items =>
    array (if items = [] then .primitive .string none else infer t items))

theorem anyOf_eq_unite {P : List Shape} (hP : Flat P) (hne : P ≠ []) : anyOf P = unite P := by
  rcases length_distinct_cases P with h | ⟨s, hs⟩ | htwo
  · exact absurd h hne
  · rw [unite_of_single hP hs, anyOf, hs]
  · rw [unite_of_several hP htwo, anyOf]
    split
    · rename_i s hs
      simp [hs] at htwo
    · rfl

variable {t : Nat} {V : List Sample}

section Offers

theorem mem_offers {s : Shape} : s ∈ offers t V ↔ ∃ v ∈ V, v.offered t = s := by
  rw [offers_eq_map, List.mem_map]

theorem primitive_mem_offers {kind : Kind} {o : Option Literal} :
    primitive kind o ∈ offers t V ↔
      (∃ l, scalar l ∈ V ∧ l.kind = kind ∧ o = some l) ∨
      (foreign ∈ V ∧ kind = .string ∧ o = none) := by
  rw [mem_offers]
  constructor
  · rintro ⟨v, hv, h⟩
    cases v with
    | scalar l =>
        obtain ⟨rfl, rfl⟩ := Shape.primitive.inj h
        exact Or.inl ⟨l, hv, rfl, rfl⟩
    | foreign =>
        obtain ⟨rfl, rfl⟩ := Shape.primitive.inj h
        exact Or.inr ⟨hv, rfl, rfl⟩
    | _ => cases h
  · rintro (⟨l, hl, rfl, rfl⟩ | ⟨hv, rfl, rfl⟩)
    · exact ⟨_, hl, rfl⟩
    · exact ⟨_, hv, rfl⟩

theorem mem_listsIn {items : List Sample} : items ∈ listsIn V ↔ list items ∈ V := by
  rw [listsIn, List.mem_filterMap]
  constructor
  · rintro ⟨v, hv, h⟩
    cases v <;> cases h
    exact hv
  · exact fun h => ⟨_, h, rfl⟩

theorem mem_literalsOf {kind : Kind} {l : Literal} :
    l ∈ (V.filterMap fun
      | .scalar l => if l.kind = kind then some l else none
      | _ => none) ↔ scalar l ∈ V ∧ l.kind = kind := by
  rw [List.mem_filterMap]
  constructor
  · rintro ⟨v, hv, h⟩
    cases v with
    | scalar m =>
        dsimp only at h
        split at h
        · rename_i hkind
          cases h
          exact ⟨hv, hkind⟩
        · cases h
    | _ => cases h
  · rintro ⟨hv, hkind⟩
    exact ⟨_, hv, if_pos hkind⟩

theorem any_isForeign_iff : V.any isForeign = true ↔ foreign ∈ V := by
  rw [List.any_eq_true]
  constructor
  · rintro ⟨v, hv, h⟩
    cases v <;> first | exact hv | cases h
  · exact fun h => ⟨_, h, rfl⟩

theorem any_isNull_iff : V.any isNull = true ↔ null ∈ V := by
  rw [List.any_eq_true]
  constructor
  · rintro ⟨v, hv, h⟩
    cases v <;> first | exact hv | cases h
  · exact fun h => ⟨_, h, rfl⟩

theorem mem_ofKind_offers {kind : Kind} {k : Key} :
    k ∈ ofKind kind (classes (offers t V)) ↔
      (∃ l, scalar l ∈ V ∧ l.kind = kind ∧ k = .primitive kind (some (l.canonical kind))) ∨
      (foreign ∈ V ∧ kind = .string ∧ k = .primitive kind none) := by
  rw [ofKind, Finset.mem_filter, mem_classes]
  constructor
  · rintro ⟨⟨s, hs, rfl⟩, hkind⟩
    obtain ⟨o, rfl⟩ := exists_of_isOf_identity hkind
    rcases primitive_mem_offers.mp hs with ⟨l, hl, hlkind, rfl⟩ | ⟨hv, hstring, rfl⟩
    · exact Or.inl ⟨l, hl, hlkind, identity_primitive kind (some l)⟩
    · exact Or.inr ⟨hv, hstring, identity_primitive kind none⟩
  · rintro (⟨l, hl, hlkind, rfl⟩ | ⟨hv, hstring, rfl⟩)
    · exact ⟨⟨_, primitive_mem_offers.mpr (Or.inl ⟨l, hl, hlkind, rfl⟩),
        identity_primitive kind (some l)⟩, _, rfl⟩
    · exact ⟨⟨_, primitive_mem_offers.mpr (Or.inr ⟨hv, hstring, rfl⟩),
        identity_primitive kind none⟩, _, rfl⟩

/-- The values of a kind are listed as the occurrences of the kind are widened. -/
theorem classes_primitivesIn (t : Nat) (kind : Kind) (V : List Sample) :
    classes (primitivesIn t kind V) = widened t kind (ofKind kind (classes (offers t V))) := by
  by_cases hforeign : kind = .string ∧ V.any isForeign
  · obtain ⟨hstring, hany⟩ := hforeign
    have hnone : Key.primitive kind none ∈ ofKind kind (classes (offers t V)) :=
      mem_ofKind_offers.mpr (Or.inr ⟨any_isForeign_iff.mp hany, hstring, rfl⟩)
    rw [primitivesIn, if_pos ⟨hstring, hany⟩, widened_of_ne_empty (Finset.ne_empty_of_mem hnone),
      if_neg fun h => h.1 hnone]
    rfl
  · -- no foreign data of this kind: the values are all there is
    have hclasses : ofKind kind (classes (offers t V)) = classes (literals kind (valuesIn kind V)) := by
      rw [valuesIn, classes_literals_distinctOn]
      ext k
      rw [mem_ofKind_offers, mem_classes_literals]
      constructor
      · rintro (⟨l, hl, hlkind, rfl⟩ | ⟨hv, hstring, rfl⟩)
        · exact ⟨_, List.mem_map_of_mem (mem_literalsOf.mpr ⟨hl, hlkind⟩), rfl⟩
        · exact absurd ⟨hstring, any_isForeign_iff.mpr hv⟩ hforeign
      · rintro ⟨c, hc, rfl⟩
        obtain ⟨l, hl, rfl⟩ := List.mem_map.mp hc
        obtain ⟨hv, hlkind⟩ := mem_literalsOf.mp hl
        exact Or.inl ⟨l, hv, hlkind, rfl⟩
    have hnone : Key.primitive kind none ∉ classes (literals kind (valuesIn kind V)) := by
      rw [mem_classes_literals]
      rintro ⟨c, -, h⟩
      cases h
    have hcard : (classes (literals kind (valuesIn kind V))).card = (valuesIn kind V).length := by
      rw [valuesIn, classes_literals_distinctOn, card_classes_literals]
    rw [primitivesIn, if_neg hforeign, hclasses]
    by_cases hnil : valuesIn kind V = []
    · rw [if_pos hnil, hnil]
      rfl
    · have hne : classes (literals kind (valuesIn kind V)) ≠ ∅ := by
        rwa [Ne, classes_eq_empty_iff, literals, List.map_eq_nil_iff]
      rw [if_neg hnil, widened_of_ne_empty hne]
      by_cases hfew : 0 < t ∧ (valuesIn kind V).length ≤ t
      · rw [if_pos hfew, if_pos ⟨hnone, hfew.1, hcard ▸ hfew.2⟩]
      · rw [if_neg hfew, if_neg fun h => hfew ⟨h.2.1, hcard ▸ h.2.2⟩]
        rfl

end Offers

section Objects

theorem bodiesOf_offers (t : Nat) (V : List Sample) :
    bodiesOf (offers t V) = (objectsIn V).map fun r => r.map (outlineField t) := by
  rw [bodiesOf_eq_filterMap, offers_eq_map, List.filterMap_map, objectsIn, List.map_filterMap]
  congr 1
  funext v
  cases v with
  | record fields =>
      show ((record fields).outline t).fields? = _
      rw [outline_record]
      rfl
  | _ => rfl

theorem entry_outlineFields (name : String) : ∀ r : List (String × Sample),
    entry name (r.map (outlineField t)) = (r.lookup name).map fun v => outlineField t (name, v)
  | [] => rfl
  | (n, v) :: r => by
      rw [List.map_cons, entry_cons, List.lookup_cons, entry_outlineFields name r]
      by_cases h : n = name
      · subst h
        simp [outlineField]
      · have hne : (name == n) = false := beq_eq_false_iff_ne.mpr fun h' => h h'.symm
        have hname : (outlineField t (n, v)).name ≠ name := h
        rw [if_neg hname, hne]

theorem contentsNamed_objects (name : String) (objects : List (List (String × Sample))) :
    contentsNamed name (objects.map fun r => r.map (outlineField t)) =
      (valuesUnder name objects).map (outline t) := by
  rw [contentsNamed, fieldsNamed_eq, List.filterMap_map, valuesUnder, List.map_filterMap,
    List.map_filterMap]
  congr 1
  funext r
  show (entry name (r.map (outlineField t))).map _ = _
  rw [entry_outlineFields, Option.map_map]
  rfl

theorem isOptionalIn_objects (name : String) (objects : List (List (String × Sample))) :
    isOptionalIn (objects.map fun r => r.map (outlineField t)) name = isMissingIn name objects := by
  rw [Bool.eq_iff_iff, isOptionalIn_iff, isMissingIn, List.any_eq_true]
  constructor
  · rintro ⟨fs, hfs, hall⟩
    obtain ⟨r, hr, rfl⟩ := List.mem_map.mp hfs
    refine ⟨r, hr, ?_⟩
    rw [entry_outlineFields] at hall
    cases hv : r.lookup name with
    | none => rfl
    | some v =>
        rw [hv] at hall
        exact absurd (hall _ rfl) Bool.false_ne_true
  · rintro ⟨r, hr, hnone⟩
    refine ⟨_, List.mem_map_of_mem hr, fun f hf => ?_⟩
    rw [entry_outlineFields, Option.isNone_iff_eq_none.mp hnone] at hf
    cases hf

theorem mem_namesIn {name : String} {objects : List (List (String × Sample))} :
    name ∈ namesIn objects ↔ valuesUnder name objects ≠ [] := by
  rw [namesIn, mem_distinctOn_id, List.mem_flatMap, Ne, valuesUnder, List.filterMap_eq_nil_iff]
  simp only [lookup_eq_none_iff, not_forall, not_not, exists_prop]

/-- The gathered fields are the merged ones, if gathering agrees with merging under each name. -/
theorem identity_object_collected
    (h : ∀ name, valuesUnder name (objectsIn V) ≠ [] →
      (infer t (valuesUnder name (objectsIn V))).identity =
        (position t ((valuesUnder name (objectsIn V)).map (outline t))).identity) :
    (object ((namesIn (objectsIn V)).map fun name =>
      ⟨name, infer t (valuesUnder name (objectsIn V)), isMissingIn name (objectsIn V)⟩)).identity =
    (object (mergedFields t (bodiesOf (offers t V)))).identity := by
  have hnames : (namesIn (objectsIn V)).Nodup := nodup_distinctOn_id _
  rw [identity_object_eq_iff]
  · intro name
    rw [entry_map_names (fun _ => rfl) hnames, entry_mergedFields, bodiesOf_offers,
      contentsNamed_objects]
    by_cases hname : valuesUnder name (objectsIn V) = []
    · rw [if_neg (mt mem_namesIn.mp (not_not.mpr hname)), hname]
      rfl
    · rw [if_pos (mem_namesIn.mpr hname), if_neg (mt List.map_eq_nil_iff.mp hname)]
      simp only [Option.map_some, mergedField, Field.map, contentsNamed_objects,
        isOptionalIn_objects, h name hname]
  · rw [List.map_map]
    exact (List.map_id (namesIn (objectsIn V))).symm ▸ hnames
  · rw [names_mergedFields]
    exact nodup_fieldNames _

end Objects

section Outlines

/-- The shape of a sample blends with nothing else to itself. -/
theorem identity_blend_outline (t : Nat) (v : Sample) :
    (blend t [v.outline t]).identity = (v.outline t).identity := by
  have hreg := regular_outline t v
  have hflat : Flat [v.outline t] := flat_singleton hreg (isUnion_outline t v)
  apply identity_unite_of_single hflat.pieces
  apply classes_pieces_singleton hreg (isUnion_outline t v)
  intro kind l h
  cases v with
  | scalar m =>
      rw [outline_scalar, Shape.primitive.injEq] at h
      by_contra hpos
      rw [if_neg hpos] at h
      cases h.2
  | _ => cases h

theorem flat_outlines (t : Nat) (V : List Sample) : Flat (V.map (outline t)) :=
  flat_map fun v _ => ⟨regular_outline t v, isUnion_outline t v⟩

theorem ofKind_eq_empty_iff {kind : Kind} {F : List Shape} :
    ofKind kind (classes F) = ∅ ↔ ∀ o, primitive kind o ∉ F := by
  rw [← classes_occurrences, classes_eq_empty_iff, List.map_eq_nil_iff, List.eq_nil_iff_forall_not_mem]
  simp only [mem_occurrences]

theorem widened_zero (kind : Kind) (S : Finset Key) :
    widened 0 kind S = if S = ∅ then ∅ else {.primitive kind none} := by
  have hkeep : ¬ KeepsLiterals 0 kind S := fun h => absurd h.2.1 (Nat.lt_irrefl 0)
  rw [widened, if_neg hkeep]

theorem exists_primitive_iff {kind : Kind} :
    (∃ o, primitive kind o ∈ offers t V) ↔ ∃ o, primitive kind o ∈ V.map (outline t) := by
  simp only [mem_offers, List.mem_map]
  constructor
  · rintro ⟨o, v, hv, h⟩
    cases v with
    | scalar l =>
        obtain ⟨rfl, rfl⟩ := Shape.primitive.inj h
        exact ⟨_, _, hv, rfl⟩
    | _ => exact ⟨o, _, hv, h⟩
  · rintro ⟨o, v, hv, h⟩
    cases v with
    | scalar l =>
        obtain ⟨rfl, rfl⟩ := Shape.primitive.inj h
        exact ⟨_, _, hv, rfl⟩
    | _ => exact ⟨o, _, hv, h⟩

/-- Whether or not literals are tracked, it does not matter that arrays keep them until they have
been counted. -/
theorem identity_blend_offers (t : Nat) (V : List Sample) :
    (blend t (offers t V)).identity = (blend t (V.map (outline t))).identity := by
  by_cases hpos : 0 < t
  · have hsame : offered t = outline t := by
      funext v
      cases v with
      | scalar l => rw [outline_scalar, if_pos hpos]; rfl
      | _ => rfl
    rw [offers_eq_map, hsame]
  · obtain rfl : t = 0 := Nat.eq_zero_of_not_pos hpos
    apply identity_unite_congr (flat_offers 0 V).pieces (flat_outlines 0 V).pieces
    -- all literals are dropped, so that only the kinds that occur count
    have hprims : ∀ kind, widened 0 kind (ofKind kind (classes (offers 0 V))) =
        widened 0 kind (ofKind kind (classes (V.map (outline 0)))) := by
      intro kind
      have hempty : ofKind kind (classes (offers 0 V)) = ∅ ↔
          ofKind kind (classes (V.map (outline 0))) = ∅ := by
        rw [ofKind_eq_empty_iff, ofKind_eq_empty_iff, ← not_exists, ← not_exists,
          exists_primitive_iff]
      rw [widened_zero, widened_zero]
      simp only [hempty]
    have hbodies : bodiesOf (V.map (outline 0)) = bodiesOf (offers 0 V) := by
      rw [bodiesOf_eq_filterMap, bodiesOf_eq_filterMap, offers_eq_map, List.filterMap_map,
        List.filterMap_map]
      congr 1
      funext v
      cases v <;> rfl
    have hkept : ∀ k : Key, (k ∈ classes (offers 0 V) ∧ k.IsKept) ↔
        (k ∈ classes (V.map (outline 0)) ∧ k.IsKept) := by
      intro k
      rw [mem_classes, mem_classes]
      constructor
      · rintro ⟨⟨s, hs, rfl⟩, hk⟩
        obtain ⟨v, hv, rfl⟩ := mem_offers.mp hs
        cases v with
        | scalar l => exact absurd hk (by simp [offered, Key.IsKept])
        | _ => exact ⟨⟨_, List.mem_map_of_mem hv, rfl⟩, hk⟩
      · rintro ⟨⟨s, hs, rfl⟩, hk⟩
        obtain ⟨v, hv, rfl⟩ := List.mem_map.mp hs
        cases v with
        | scalar l => exact absurd hk (by simp [Key.IsKept])
        | _ => exact ⟨⟨_, mem_offers.mpr ⟨_, hv, rfl⟩, rfl⟩, hk⟩
    ext k
    rw [mem_classes_pieces, mem_classes_pieces, hbodies, hkept]
    simp only [hprims]

/-- The values of a field are merged as the items of an array are. -/
theorem identity_position_outlines (hne : V ≠ []) :
    (position t (V.map (outline t))).identity = (blend t (offers t V)).identity := by
  have hflat := flat_outlines t V
  rw [identity_blend_offers]
  rcases length_distinct_cases (V.map (outline t)) with h | ⟨s, hs⟩ | htwo
  · exact absurd (List.map_eq_nil_iff.mp h) hne
  · -- a single structure is not merged, and blending leaves it as it is
    obtain ⟨v, -, hv⟩ := List.mem_map.mp (mem_of_mem_distinct (hs ▸ List.mem_singleton_self s))
    have hclasses : classes (V.map (outline t)) = classes [v.outline t] := by
      rw [← classes_distinct, hs, hv]
    rw [position_of_single hs, ← hv, identity_blend_congr hflat
      (flat_singleton (regular_outline t v) (isUnion_outline t v)) hclasses, identity_blend_outline]
  · have hcard : (classes (flatten (V.map (outline t)))).card ≠ 1 := by
      rw [flatten_eq_self hflat.noUnion, ← length_distinct]
      omega
    rw [identity_position_of_several hflat.regular htwo, identity_merged_of_several hflat.regular
      hcard, flatten_eq_self hflat.noUnion]

end Outlines

section Collecting

/-- What is collected agrees with the merged pieces, if it does so for the values of each name and
the items of each array. -/
theorem classes_collected
    (hvalues : ∀ name, valuesUnder name (objectsIn V) ≠ [] →
      (infer t (valuesUnder name (objectsIn V))).identity =
        (blend t (offers t (valuesUnder name (objectsIn V)))).identity)
    (hitems : ∀ items ∈ listsIn V, items ≠ [] →
      (infer t items).identity = (blend t (offers t items)).identity) :
    classes (collected t V) = classes (pieces t (offers t V)) := by
  have hobject := identity_object_collected (t := t) (V := V) fun name hname =>
    (hvalues name hname).trans (identity_position_outlines hname).symm
  have hlists : ∀ items ∈ listsIn V,
      (array (if items = [] then .primitive .string none else infer t items)).identity =
        ((list items).outline t).identity := by
    intro items hmem
    split
    · rename_i hnil
      rw [hnil]
      rfl
    · rename_i hne
      rw [outline_list, identity_array, identity_array, hitems items hmem hne]
  have hbodies : bodiesOf (offers t V) ≠ [] ↔ objectsIn V ≠ [] := by
    rw [bodiesOf_offers, Ne, List.map_eq_nil_iff]
  ext k
  have hkept : (k ∈ classes ((listsIn V).map fun items =>
          array (if items = [] then .primitive .string none else infer t items)) ∨
        k ∈ classes (if V.any isNull then [.null] else [])) ↔
      k ∈ classes (offers t V) ∧ k.IsKept := by
    rw [mem_classes, mem_classes, mem_classes]
    constructor
    · rintro (⟨s, hs, rfl⟩ | ⟨s, hs, rfl⟩)
      · obtain ⟨items, hmem, rfl⟩ := List.mem_map.mp hs
        rw [hlists items hmem]
        exact ⟨⟨_, mem_offers.mpr ⟨_, mem_listsIn.mp hmem, rfl⟩, rfl⟩, trivial⟩
      · split at hs
        · rename_i hnull
          cases List.mem_singleton.mp hs
          exact ⟨⟨_, mem_offers.mpr ⟨_, any_isNull_iff.mp hnull, rfl⟩, rfl⟩, trivial⟩
        · cases hs
    · rintro ⟨⟨s, hs, rfl⟩, hk⟩
      obtain ⟨v, hv, rfl⟩ := mem_offers.mp hs
      cases v with
      | null =>
          refine Or.inr ⟨Shape.null, ?_, rfl⟩
          rw [if_pos (any_isNull_iff.mpr hv)]
          exact List.mem_singleton_self _
      | list items =>
          have hmem := mem_listsIn.mpr hv
          exact Or.inl ⟨_, List.mem_map_of_mem hmem, hlists items hmem⟩
      | scalar l => exact absurd hk (by simp [offered, Key.IsKept])
      | foreign => exact hk.elim
      | record fields => exact hk.elim
  rw [mem_classes_pieces, hbodies, ← hobject, collected, classes_append, classes_append,
    classes_append, Finset.mem_union, Finset.mem_union, Finset.mem_union,
    mem_classes_flatMap_kinds, mem_classes_unless, ← hkept]
  simp only [classes_primitivesIn, or_assoc]

theorem flat_primitivesIn (t : Nat) (kind : Kind) (V : List Sample) :
    Flat (primitivesIn t kind V) := by
  have hbare : Flat [primitive kind none] :=
    flat_singleton (regular_bare _) rfl
  rw [primitivesIn]
  split
  · exact hbare
  · split
    · exact flat_nil
    · split
      · refine flat_map fun l hl => ⟨?_, rfl⟩
        have hkind := (mem_literalsOf.mp (mem_of_mem_distinctOn _ hl)).2
        exact .primitive fun m hm => Option.some.inj hm ▸ hkind
      · exact hbare

theorem flat_collected
    (hvalues : ∀ name, valuesUnder name (objectsIn V) ≠ [] →
      (infer t (valuesUnder name (objectsIn V))).Regular)
    (hitems : ∀ items ∈ listsIn V, items ≠ [] → (infer t items).Regular) :
    Flat (collected t V) := by
  have hprims : Flat (Kind.all.flatMap fun kind => primitivesIn t kind V) :=
    flat_flatMap fun kind _ => flat_primitivesIn t kind V
  have hobject : Flat (if objectsIn V = [] then []
      else [object ((namesIn (objectsIn V)).map fun name => ⟨name,
        infer t (valuesUnder name (objectsIn V)), isMissingIn name (objectsIn V)⟩)]) := by
    split
    · exact flat_nil
    · apply flat_singleton _ rfl
      apply Regular.object
      · rw [List.map_map]
        exact (List.map_id (namesIn (objectsIn V))).symm ▸ nodup_distinctOn_id _
      · intro f hf
        obtain ⟨name, hname, rfl⟩ := List.mem_map.mp hf
        exact hvalues name (mem_namesIn.mp hname)
  have hlists : Flat ((listsIn V).map fun items =>
      array (if items = [] then .primitive .string none else infer t items)) := by
    refine flat_map fun items hmem => ⟨?_, rfl⟩
    split
    · exact .array regular_unknown
    · rename_i hne
      exact .array (hitems items hmem hne)
  have hnull : Flat (if V.any isNull then [.null] else []) := by
    split
    · exact flat_singleton .null rfl
    · exact flat_nil
  exact ((hprims.append hobject).append hlists).append hnull

/-- Collecting samples agrees with blending what they bring. -/
theorem regular_infer_and_identity (t : Nat) (V : List Sample) (hne : V ≠ []) :
    (infer t V).Regular ∧ (infer t V).identity = (blend t (offers t V)).identity := by
  -- the values of a name and the items of an array are smaller than the samples they are in
  have hvalues : ∀ name, valuesUnder name (objectsIn V) ≠ [] →
      (infer t (valuesUnder name (objectsIn V))).Regular ∧
        (infer t (valuesUnder name (objectsIn V))).identity =
          (blend t (offers t (valuesUnder name (objectsIn V)))).identity := by
    intro name hname
    have hsize := sizeOf_valuesUnder name V
    have hpos : 0 < (objectsIn V).length := by
      apply List.length_pos_iff.mpr
      rintro hnil
      rw [hnil] at hname
      exact hname rfl
    exact regular_infer_and_identity t _ hname
  have hitems : ∀ items ∈ listsIn V, items ≠ [] →
      (infer t items).Regular ∧ (infer t items).identity = (blend t (offers t items)).identity := by
    intro items hmem hitems
    have hsize := sizeOf_lt_of_mem_listsIn hmem
    exact regular_infer_and_identity t items hitems
  have hflat := flat_collected (fun name h => (hvalues name h).1) fun items hmem h =>
    (hitems items hmem h).1
  have hclasses := classes_collected (fun name h => (hvalues name h).2) fun items hmem h =>
    (hitems items hmem h).2
  have hoffers : offers t V ≠ [] := by
    rw [offers_eq_map]
    exact mt List.map_eq_nil_iff.mp hne
  have hcollected : collected t V ≠ [] := by
    rw [Ne, ← classes_eq_empty_iff, hclasses, classes_eq_empty_iff]
    exact pieces_ne_nil (flat_offers t V) hoffers
  rw [infer_eq, anyOf_eq_unite hflat hcollected]
  exact ⟨regular_unite hflat, identity_unite_congr hflat (flat_offers t V).pieces hclasses⟩
termination_by sizeOf V

/-- The shape of a sample is what is collected from it. -/
theorem identity_infer (t : Nat) (v : Sample) :
    (v.outline t).identity = (infer t [v]).identity := by
  rw [(regular_infer_and_identity t [v] (List.cons_ne_nil v [])).2, ← identity_blend_outline,
    identity_blend_offers]
  rfl

end Collecting

/-- Samples that differ in the order and the repetition of the items of arrays and in the order of
the names of objects, at any depth. -/
inductive Rearranged : Sample → Sample → Prop
  | refl (v : Sample) : Rearranged v v
  | trans {u v w : Sample} (huv : Rearranged u v) (hvw : Rearranged v w) : Rearranged u w
  | items {xs ys : List Sample} (hmem : ∀ v, v ∈ xs ↔ v ∈ ys) : Rearranged (list xs) (list ys)
  | item {u v : Sample} (xs ys : List Sample) (huv : Rearranged u v) :
      Rearranged (list (xs ++ u :: ys)) (list (xs ++ v :: ys))
  | names {xs ys : List (String × Sample)} (hmem : ∀ e, e ∈ settle xs ↔ e ∈ settle ys) :
      Rearranged (record xs) (record ys)
  | value {u v : Sample} (xs ys : List (String × Sample)) (name : String)
      (huv : Rearranged u v) :
      Rearranged (record (xs ++ (name, u) :: ys)) (record (xs ++ (name, v) :: ys))

section Rearranging

theorem identity_outline_record (t : Nat) (fields : List (String × Sample)) :
    ((record fields).outline t).identity =
      .object (sortFields ((settle (fields.map fun e => (e.1, (e.2.outline t).identity))).map
        fun e => ⟨e.1, e.2, false⟩)) := by
  rw [outline_record, identity_object, settle_map fun _ v => (outline t v).identity]
  rw [List.map_map, List.map_map]
  rfl

theorem Rearranged.identity_eq {v w : Sample} (h : Rearranged v w) :
    (v.outline t).identity = (w.outline t).identity ∧
      (v.offered t).identity = (w.offered t).identity := by
  have hlist : ∀ {xs ys : List Sample}, classes (offers t xs) = classes (offers t ys) →
      ((list xs).outline t).identity = ((list ys).outline t).identity := by
    intro xs ys hclasses
    rw [outline_list, outline_list, identity_array, identity_array,
      identity_blend_congr (flat_offers t xs) (flat_offers t ys) hclasses]
  induction h with
  | refl v => exact ⟨rfl, rfl⟩
  | trans _ _ ihuv ihvw => exact ⟨ihuv.1.trans ihvw.1, ihuv.2.trans ihvw.2⟩
  | @items xs ys hmem =>
      have heq : ((list xs).outline t).identity = ((list ys).outline t).identity := by
        apply hlist
        ext k
        simp only [mem_classes, mem_offers, hmem]
      exact ⟨heq, heq⟩
  | @item u v xs ys _ ih =>
      have heq : ((list (xs ++ u :: ys)).outline t).identity =
          ((list (xs ++ v :: ys)).outline t).identity := by
        apply hlist
        simp only [offers_eq_map, List.map_append, List.map_cons, classes_append, classes_cons, ih.2]
      exact ⟨heq, heq⟩
  | @names xs ys hmem =>
      have heq : ((record xs).outline t).identity = ((record ys).outline t).identity := by
        have hnames : ∀ zs : List (String × Sample),
            (((settle zs).map (outlineField t)).map (·.name)).Nodup := fun zs => by
          rw [names_outlineFields]
          exact nodup_keys_settle zs
        rw [outline_record, outline_record, identity_object_eq_iff (hnames xs) (hnames ys)]
        intro name
        congr 1
        ext f
        rw [entry_eq_some_iff (hnames xs), entry_eq_some_iff (hnames ys), List.mem_map, List.mem_map]
        simp only [hmem]
      exact ⟨heq, heq⟩
  | @value u v xs ys name _ ih =>
      have heq : ((record (xs ++ (name, u) :: ys)).outline t).identity =
          ((record (xs ++ (name, v) :: ys)).outline t).identity := by
        rw [identity_outline_record, identity_outline_record]
        simp only [List.map_append, List.map_cons, ih.1]
      exact ⟨heq, heq⟩

end Rearranging

/-- The shape of a sample is what is collected from it.  In particular it depends neither on the
order and the repetition of items nor on the order of names. -/
theorem exact_inference (limits : Limits) :
    (∀ (v : Sample) (s : Shape), v.shape limits = .ok s →
      s.equal? (infer limits.literals [v]) = .ok true) ∧
    (∀ (v w : Sample) (s r : Shape), Rearranged v w → v.shape limits = .ok s →
      w.shape limits = .ok r → s.equal? r = .ok true) := by
  constructor
  · intro v s hs
    rw [eq_outline_of_shape_eq_ok hs]
    exact equal?_of_identity_eq (regular_outline _ v)
      (regular_infer_and_identity _ [v] (List.cons_ne_nil v [])).1 (identity_infer _ v)
  · intro v w s r hvw hs hr
    rw [eq_outline_of_shape_eq_ok hs, eq_outline_of_shape_eq_ok hr]
    exact equal?_of_identity_eq (regular_outline _ v) (regular_outline _ w) hvw.identity_eq.1

/-- A list of objects, read in another order and with one of them repeated. -/
theorem exact_inference_repeated :
    ∃ s r,
      (list [record [("id", scalar (.int 1))], record []]).shape { literals := 1 } = .ok s ∧
      (list [record [], record [("id", scalar (.int 1))], record []]).shape { literals := 1 } =
        .ok r ∧
      s.equal? (infer 1 [list [record [("id", scalar (.int 1))], record []]]) = .ok true ∧
      s.equal? r = .ok true := by
  have hleft : (list [record [("id", scalar (.int 1))], record []]).shape { literals := 1 } =
      .ok _ :=
    arrayShape_eq _ [record [("id", scalar (.int 1))], record []]
  have hright : (list [record [], record [("id", scalar (.int 1))], record []]).shape
      { literals := 1 } = .ok _ :=
    arrayShape_eq _ [record [], record [("id", scalar (.int 1))], record []]
  have hrearranged : Rearranged (list [record [("id", scalar (.int 1))], record []])
      (list [record [], record [("id", scalar (.int 1))], record []]) :=
    .items fun v => by
      simp only [List.mem_cons, List.not_mem_nil, or_false]
      exact ⟨fun h => h.elim (fun h => Or.inr (Or.inl h)) Or.inl,
        fun h => h.elim Or.inr id⟩
  exact ⟨_, _, hleft, hright, (exact_inference { literals := 1 }).1 _ _ hleft,
    (exact_inference { literals := 1 }).2 _ _ _ _ hrearranged hleft hright⟩

end Sample

end TypeSketch
