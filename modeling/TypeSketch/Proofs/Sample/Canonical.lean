import TypeSketch.Proofs.Sample.Outline
import TypeSketch.Proofs.Shape.Canonical

/-!
# The canonical form of inferred shapes

Every union in an inferred shape is canonical, and so are the unions in the shapes that inference
brings together on the way.  `Taken` follows the calls by which it does so, from the arrays in a
sample down to what is merged for their sake.  Main statements:

* `combine_eq_unite`: the literals of one kind may be united by themselves before all is united;
* `canonical_form`: the form of the result, and what consolidating and uniting receive.
-/

namespace TypeSketch.Sample

open Shape

section Outline

variable {t : Nat}

theorem blendable_offered {v : Sample} (h : (v.outline t).Canonical t) :
    Blendable t (v.offered t) := by
  cases v with
  | scalar l => exact Or.inl ⟨l.kind, some l, rfl⟩
  | _ => exact Or.inr h

theorem blendable_offers_of {items : List Sample} (h : ∀ v ∈ items, (v.outline t).Canonical t) :
    ∀ s ∈ offers t items, Blendable t s := by
  rw [offers_eq_map, List.forall_mem_map]
  exact fun v hv => blendable_offered (h v hv)

/-- The unions in the shape of a sample are canonical. -/
theorem canonical_outline (t : Nat) (v : Sample) : (v.outline t).Canonical t := by
  induction v using nestedInduction with
  | null => exact canonical_null
  | scalar l =>
      rw [outline_scalar]
      split
      · exact canonical_primitive l.kind fun _ => ‹_›
      · exact canonical_primitive l.kind fun h => absurd rfl h
  | foreign => exact canonical_unknown
  | list items ih =>
      rw [outline_list]
      exact (canonical_blend (flat_offers t items) (blendable_offers_of ih)).array
  | record fields ih =>
      rw [outline_record]
      apply canonical_object
      intro f hf
      obtain ⟨e, he, rfl⟩ := List.mem_map.mp hf
      exact ih e (mem_of_mem_settle he)

theorem blendable_offers (t : Nat) (items : List Sample) :
    ∀ s ∈ offers t items, Blendable t s :=
  blendable_offers_of fun v _ => canonical_outline t v

end Outline

/-- A sample stands inside another one, so many levels deep. -/
inductive Inside (v : Sample) : Nat → Sample → Prop
  | root : Inside v 0 v
  | item {n : Nat} {items : List Sample} {w : Sample} (h : Inside v n (.list items))
      (hw : w ∈ items) : Inside v (n + 1) w
  | value {n : Nat} {fields : List (String × Sample)} {e : String × Sample}
      (h : Inside v n (.record fields)) (he : e ∈ fields) : Inside v (n + 1) e.2

/-- The shape of the primitives of one kind, if there are any. -/
def primitiveOf (threshold : Nat) (kind : Kind) (occurrences : List (Option Literal)) :
    List Shape :=
  if occurrences = [] then [] else [unite (widen threshold kind occurrences)]

/-- The shapes that the parts bring to their union, where `fields` are the merged fields of the
objects.  Several literals of one kind come as a union. -/
def candidates (threshold : Nat) (parts : Parts) (fields : List (Field Shape)) : List Shape :=
  Kind.all.flatMap (fun kind => primitiveOf threshold kind (parts.occurrences kind)) ++
    (if parts.objects = [] then [] else [.object fields]) ++
    parts.arrays ++
    (if parts.hasNull then [.null] else [])

theorem flatten_primitiveOf (t : Nat) (kind : Kind) (occurrences : List (Option Literal)) :
    flatten (primitiveOf t kind occurrences) = widen t kind occurrences := by
  rw [primitiveOf]
  split
  · rename_i hnil
    rw [hnil]
    rfl
  · rename_i hne
    rw [flatten_singleton, (canonical_unite_widen t kind hne).2]

/-- Uniting takes unions apart once, which leaves nothing of those that widening builds. -/
theorem combine_eq_unite (t : Nat) (parts : Parts) (fields : List (Field Shape)) :
    parts.combine t fields = unite (candidates t parts fields) := by
  have hkinds : flatten (Kind.all.flatMap fun kind => widen t kind (parts.occurrences kind)) =
      flatten (Kind.all.flatMap fun kind => primitiveOf t kind (parts.occurrences kind)) := by
    rw [flatten_eq_self]
    · rw [flatten, List.flatMap_assoc]
      exact List.flatMap_congr fun kind _ => (flatten_primitiveOf t kind _).symm
    · intro s hs
      obtain ⟨kind, -, hs⟩ := List.mem_flatMap.mp hs
      exact noUnion_widen kind _ s hs
  rw [Parts.combine, candidates, unite, unite]
  simp only [flatten_append, hkinds]

/-- A call by which inference brings shapes together. -/
inductive Call
  | combine (parts : Parts)
  | unite (shapes : List Shape)
  | mergeObjects (bodies : List (List (Field Shape)))
  | consolidate (shapes : List Shape)

/-- The calls made while the shape of a sample is inferred. -/
inductive Taken (limits : Limits) (v : Sample) : Call → Prop
  /-- The items of an array are combined, or those that were seen before one lay too deep. -/
  | items {depth : Nat} {items seen : List Sample} {parts : Parts}
      (hv : Inside v depth (.list items)) (hseen : seen.Sublist items)
      (hparts : partsAt limits depth seen = .ok parts) : Taken limits v (.combine parts)
  /-- To combine parts, the primitives of each kind are united by themselves. -/
  | primitives {parts : Parts} {kind : Kind} (h : Taken limits v (.combine parts))
      (hkind : parts.occurrences kind ≠ []) :
      Taken limits v (.unite (widen limits.literals kind (parts.occurrences kind)))
  /-- Objects are merged. -/
  | objects {parts : Parts} (h : Taken limits v (.combine parts)) :
      Taken limits v (.mergeObjects parts.objects)
  /-- Then all of them are united. -/
  | candidates {parts : Parts} {fields : List (Field Shape)} (h : Taken limits v (.combine parts))
      (hfields : mergeFields limits.literals parts.objects = .ok fields) :
      Taken limits v (.unite (candidates limits.literals parts fields))
  /-- To merge objects, the different contents of a field are consolidated. -/
  | contents {bodies : List (List (Field Shape))} {name : String}
      (h : Taken limits v (.mergeObjects bodies))
      (hseveral : 2 ≤ (distinct (contentsNamed name bodies)).length) :
      Taken limits v (.consolidate (distinct (contentsNamed name bodies)))
  /-- To consolidate shapes, the different members among them are combined. -/
  | members {shapes : List Shape} (h : Taken limits v (.consolidate shapes))
      (hseveral : (distinct (flatten shapes)).length ≠ 1) :
      Taken limits v (.combine (Parts.ofShapes (distinct (flatten shapes))))

/-- Regular shapes whose unions are canonical. -/
structure Sound (threshold : Nat) (shapes : List Shape) : Prop where
  regular : ∀ s ∈ shapes, s.Regular
  canonical : ∀ s ∈ shapes, s.Canonical threshold

/-- What a call receives: the unions in it are canonical. -/
def Call.Safe (threshold : Nat) : Call → Prop
  | .combine parts =>
      ∃ shapes, Flat shapes ∧ (∀ s ∈ shapes, Blendable threshold s) ∧ parts = Parts.ofShapes shapes
  | .unite shapes => ∀ s ∈ shapes, s.Canonical threshold
  | .mergeObjects bodies => Sound threshold (bodies.map .object)
  | .consolidate shapes => Sound threshold shapes

section Calls

variable {t : Nat} {limits : Limits} {v : Sample}

theorem sound_bodiesOf {F : List Shape} (hF : Flat F) (h : ∀ s ∈ F, Blendable t s) :
    Sound t ((bodiesOf F).map .object) where
  regular := List.forall_mem_map.mpr hF.bodies
  canonical := List.forall_mem_map.mpr fun _ hfs => (h _ (mem_bodiesOf.mp hfs)).object

/-- What the parts of several shapes bring to their union, once their objects were merged. -/
theorem canonical_candidates {F : List Shape} (hF : Flat F) (h : ∀ s ∈ F, Blendable t s)
    {fields : List (Field Shape)}
    (hfields : mergeFields t (Parts.ofShapes F).objects = .ok fields) :
    ∀ s ∈ candidates t (Parts.ofShapes F) fields, s.Canonical t := by
  have hmerged : mergeFields t (Parts.ofShapes F).objects = .ok (mergedFields t (bodiesOf F)) :=
    mergeFields_eq hF.bodies
  rw [hmerged] at hfields
  cases hfields
  intro s hs
  rw [candidates, List.mem_append, List.mem_append, List.mem_append] at hs
  rcases hs with ((hs | hs) | hs) | hs
  · obtain ⟨kind, -, hs⟩ := List.mem_flatMap.mp hs
    rw [primitiveOf] at hs
    split at hs
    · cases hs
    · cases List.mem_singleton.mp hs
      exact (canonical_unite_widen t kind ‹_›).1
  · split at hs
    · cases hs
    · cases List.mem_singleton.mp hs
      exact canonical_mergedFields hF.bodies fun fs hfs => (h _ (mem_bodiesOf.mp hfs)).object
  · obtain ⟨hmem, item, rfl⟩ := mem_arrays.mp hs
    exact (h _ hmem).array
  · split at hs
    · cases List.mem_singleton.mp hs
      exact canonical_null
    · cases hs

theorem Sound.distinct_contentsNamed {bodies : List (List (Field Shape))}
    (h : Sound t (bodies.map .object)) (name : String) :
    Sound t (distinct (contentsNamed name bodies)) where
  regular := regular_distinct (regular_contentsNamed (List.forall_mem_map.mp h.regular) name)
  canonical s hs :=
    canonical_contentsNamed (List.forall_mem_map.mp h.canonical) name s (mem_of_mem_distinct hs)

/-- What is left of consolidated shapes when they are blended. -/
theorem Sound.blendable {shapes : List Shape} (h : Sound t shapes) :
    ∀ s ∈ distinct (flatten shapes), Blendable t s := fun s hs =>
  Or.inr (canonical_of_mem_flatten h.canonical s (mem_of_mem_distinct hs))

theorem parts_eq {depth : Nat} {items : List Sample} {parts : Parts}
    (h : partsAt limits depth items = .ok parts) :
    parts = Parts.ofShapes (offers limits.literals items) :=
  (yields_partsAt (fun w _ => yieldsOutline limits w) depth).eq_of_eq_ok h

/-- Each call receives canonical unions alone, as the call did that led to it. -/
theorem Taken.safe {call : Call} (h : Taken limits v call) : call.Safe limits.literals := by
  induction h with
  | @items _ _ seen _ _ _ hparts =>
      exact ⟨offers limits.literals seen, flat_offers _ seen, blendable_offers _ seen,
        parts_eq hparts⟩
  | primitives => exact canonical_of_mem_widen
  | objects _ ih =>
      obtain ⟨F, hF, hblendable, rfl⟩ := ih
      exact sound_bodiesOf hF hblendable
  | candidates _ hfields ih =>
      obtain ⟨F, hF, hblendable, rfl⟩ := ih
      exact canonical_candidates hF hblendable hfields
  | contents _ _ ih => exact ih.distinct_contentsNamed _
  | members _ _ ih => exact ⟨_, (flat_flatten ih.regular).distinct, ih.blendable, rfl⟩

end Calls

/-- The unions anywhere in the shapes have members, none of which is a union. -/
def FlatUnions (shapes : List Shape) : Prop :=
  ∀ s ∈ shapes, ∀ ms, Within (.union ms) s → ms ≠ [] ∧ ∀ m ∈ ms, m.isUnion = false

theorem flatUnions_of_canonical {t : Nat} {shapes : List Shape}
    (h : ∀ s ∈ shapes, s.Canonical t) : FlatUnions shapes := by
  intro s hs ms hms
  have hunion := (h s hs).unions ms hms
  exact ⟨List.ne_nil_of_length_pos (Nat.lt_of_lt_of_le Nat.two_pos hunion.several), hunion.flat⟩

/-- The unions in an inferred shape are canonical, and none of its literals is left where none are
tracked; on the way to it only flat unions with members are consolidated and united, so that
consolidating them does not fail. -/
theorem canonical_form (limits : Limits) (v : Sample) :
    (∀ s, v.shape limits = .ok s → s.Canonical limits.literals) ∧
      (∀ shapes, Taken limits v (.consolidate shapes) →
        FlatUnions shapes ∧ ∃ s, consolidate limits.literals shapes = .ok s) ∧
      ∀ shapes, Taken limits v (.unite shapes) → FlatUnions shapes := by
  refine ⟨fun s hs => ?_, fun shapes h => ?_, fun shapes h => ?_⟩
  · rw [eq_outline_of_shape_eq_ok hs]
    exact canonical_outline limits.literals v
  · have hsound : Sound limits.literals shapes := h.safe
    exact ⟨flatUnions_of_canonical hsound.canonical, _, consolidate_eq hsound.regular⟩
  · exact flatUnions_of_canonical h.safe

/-- Objects whose field holds a number in one and a list of a number and a text in the other. -/
def ids : List Sample :=
  [record [("id", scalar (.int 1))], record [("id", list [scalar (.int 2), scalar (.str "b")])]]

/-- What the field holds is consolidated: the bare number and a list with a union. -/
theorem canonical_form_ids :
    ∃ s, (list ids).shape {} = .ok s ∧ s.Canonical 0 ∧
      ∃ item, item = .union [.primitive .string none, .primitive .number none] ∧
        Taken {} (list ids) (.consolidate [.primitive .number none, .array item]) ∧
        FlatUnions [.primitive .number none, .array item] := by
  have hitems : ∀ w ∈ ids, Fits {} 1 w := by
    simp [ids, fits_record_iff, fits_list_iff, fits_scalar]
  have hshape : (list ids).shape {} = .ok ((list ids).outline 0) :=
    (yields_shape {} (list ids)).ok (fits_list_iff.mpr ⟨Nat.zero_le _, hitems⟩)
  have hparts : partsAt {} 0 ids = .ok (Parts.ofShapes (offers 0 ids)) :=
    (yields_partsAt (fun w _ => yieldsOutline {} w) 0).ok hitems
  have htaken : Taken {} (list ids) (.consolidate
      (distinct (contentsNamed "id" (Parts.ofShapes (offers 0 ids)).objects))) :=
    .contents (.objects (.items .root (List.Sublist.refl ids) hparts)) (by decide)
  have hform := canonical_form {} (list ids)
  exact ⟨_, hshape, hform.1 _ hshape, _, rfl, htaken, (hform.2.1 _ htaken).1⟩

end TypeSketch.Sample
