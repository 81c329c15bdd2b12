import TypeSketch.Inference
import TypeSketch.Proofs.Shape.Congruence

/-!
# The shape of a sample without its depth

Inference measures the depth and reads the items of an array in one pass.  `outline` is the shape
that comes out, defined by recursion on the sample alone; `offered` is what an item brings to its
array, where literals are kept until they have been counted.  Main statements:

* `regular_outline`: the shape of a sample is regular;
* `yields_shape`: inference yields the outline, unless a node that it measures lies too deep.
-/

namespace TypeSketch.Sample

open Shape

/-- Induction over a sample, its items and the values of its fields. -/
@[elab_as_elim]
theorem nestedInduction {P : Sample → Prop} (null : P .null) (scalar : ∀ l, P (.scalar l))
    (foreign : P .foreign) (list : ∀ items, (∀ v ∈ items, P v) → P (.list items))
    (record : ∀ fields, (∀ e ∈ fields, P e.2) → P (.record fields)) (v : Sample) : P v :=
  @Sample.rec P (fun items => ∀ v ∈ items, P v) (fun fields => ∀ e ∈ fields, P e.2)
    (fun e => P e.2) null scalar foreign list record (fun _ h => by cases h)
    (fun _ _ hhead htail => List.forall_mem_cons.mpr ⟨hhead, htail⟩) (fun _ h => by cases h)
    (fun _ _ hhead htail => List.forall_mem_cons.mpr ⟨hhead, htail⟩) (fun _ _ h => h) v

mutual

/-- The shape of a sample at any depth. -/
def outline (threshold : Nat) : Sample → Shape
  | .null => .null
  | .scalar l => .primitive l.kind (if 0 < threshold then some l else none)
  | .foreign => .unknown
  | .list items => .array (blend threshold (offers threshold items))
  | .record fields => .object (settleFields (outlineFields threshold fields))

/-- What the items of an array bring to its item shape. -/
def offers (threshold : Nat) : List Sample → List Shape
  | [] => []
  | .scalar l :: rest => .primitive l.kind (some l) :: offers threshold rest
  | v :: rest => v.outline threshold :: offers threshold rest

def outlineFields (threshold : Nat) : List (String × Sample) → List (Field Shape)
  | [] => []
  | (name, v) :: rest => ⟨name, v.outline threshold, false⟩ :: outlineFields threshold rest

end

/-- What a sample brings to the array it is an item of. -/
def offered (threshold : Nat) : Sample → Shape
  | .scalar l => .primitive l.kind (some l)
  | v => v.outline threshold

section Equations

variable (t : Nat)

@[simp]
theorem outline_null : null.outline t = .null := rfl

@[simp]
theorem outline_scalar (l : Literal) :
    (scalar l).outline t = .primitive l.kind (if 0 < t then some l else none) := rfl

@[simp]
theorem outline_foreign : foreign.outline t = .unknown := rfl

@[simp]
theorem outline_list (items : List Sample) :
    (list items).outline t = .array (blend t (offers t items)) := rfl

end Equations

variable {t : Nat}

theorem offers_eq_map (t : Nat) (items : List Sample) : offers t items = items.map (offered t) := by
  induction items with
  | nil => rw [offers]; rfl
  | cons v items ih =>
      rw [List.map_cons, ← ih]
      cases v <;> rw [offers] <;> first | rfl | exact fun _ h => by cases h

/-- The field of an object that a named value becomes. -/
def outlineField (threshold : Nat) (e : String × Sample) : Field Shape :=
  ⟨e.1, e.2.outline threshold, false⟩

theorem outlineFields_eq_map (t : Nat) (fields : List (String × Sample)) :
    outlineFields t fields = fields.map (outlineField t) := by
  induction fields with
  | nil => rw [outlineFields]; rfl
  | cons e fields ih =>
      obtain ⟨name, v⟩ := e
      rw [outlineFields, ih, List.map_cons]
      rfl

/-- The fields of a record are those of its settled entries. -/
theorem outline_record (t : Nat) (fields : List (String × Sample)) :
    (record fields).outline t = .object ((settle fields).map (outlineField t)) := by
  have hsettle := settle_map (fun name v => outlineField t (name, v)) fields
  rw [outline, settleFields, outlineFields_eq_map, List.map_map]
  -- the fields are settled by their names, which do not change
  congr 1
  calc (settle (fields.map fun e => (e.1, outlineField t e))).map (·.2)
      = ((settle fields).map fun e => (e.1, outlineField t e)).map (·.2) := by rw [hsettle]
    _ = (settle fields).map (outlineField t) := by rw [List.map_map]; rfl

theorem isUnion_outline (t : Nat) (v : Sample) : (v.outline t).isUnion = false := by
  cases v <;> rw [outline] <;> rfl

theorem names_outlineFields (t : Nat) (entries : List (String × Sample)) :
    (entries.map (outlineField t)).map (·.name) = entries.map (·.1) := by
  rw [List.map_map]
  rfl

theorem flat_offers_of {items : List Sample} (h : ∀ v ∈ items, (v.outline t).Regular) :
    Flat (offers t items) := by
  have hoffered : ∀ v ∈ items, (v.offered t).Regular ∧ (v.offered t).isUnion = false := by
    intro v hv
    cases v with
    | scalar l => exact ⟨.primitive fun m hm => Option.some.inj hm ▸ rfl, rfl⟩
    | _ => exact ⟨h _ hv, isUnion_outline t _⟩
  rw [offers_eq_map]
  exact flat_map hoffered

/-- The shape of a sample is regular. -/
theorem regular_outline (t : Nat) (v : Sample) : (v.outline t).Regular := by
  induction v using nestedInduction with
  | null => rw [outline]; exact .null
  | scalar l =>
      rw [outline]
      refine .primitive fun m hm => ?_
      split at hm
      · rw [← Option.some.inj hm]
      · cases hm
  | foreign => rw [outline]; exact regular_unknown
  | list items ih =>
      rw [outline]
      exact .array (regular_blend (flat_offers_of ih))
  | record fields ih =>
      rw [outline_record]
      apply Regular.object
      · rw [names_outlineFields]
        exact nodup_keys_settle fields
      · intro f hf
        obtain ⟨e, he, rfl⟩ := List.mem_map.mp hf
        exact ih e (mem_of_mem_settle he)

theorem flat_offers (t : Nat) (items : List Sample) : Flat (offers t items) :=
  flat_offers_of fun v _ => regular_outline t v

/-- What the items of an array bring together makes up its outline. -/
theorem arrayShape_eq (limits : Limits) (items : List Sample) :
    arrayShape limits (Parts.ofShapes (offers limits.literals items)) =
      .ok ((list items).outline limits.literals) := by
  have hfields := mergeFields_eq (t := limits.literals) (flat_offers limits.literals items).bodies
  rw [bodiesOf] at hfields
  rw [arrayShape, hfields, outline]
  rfl

/-- A node that inference measures, an array or the value of a field, lies at the given depth
inside the sample. -/
inductive Measured : Sample → Nat → Prop
  | array (items : List Sample) : Measured (.list items) 0
  | item {items : List Sample} {v : Sample} {n : Nat} (hv : v ∈ items) (h : Measured v n) :
      Measured (.list items) (n + 1)
  | value {fields : List (String × Sample)} {e : String × Sample} (he : e ∈ fields) :
      Measured (.record fields) 1
  | inner {fields : List (String × Sample)} {e : String × Sample} {n : Nat} (he : e ∈ fields)
      (h : Measured e.2 n) : Measured (.record fields) (n + 1)

/-- No measured node of a sample at the given depth lies too deep. -/
def Fits (limits : Limits) (depth : Nat) (v : Sample) : Prop :=
  ∀ n, v.Measured n → depth + n ≤ limits.depth

/-- A computation that yields `a` if the depths are accepted and fails by them otherwise. -/
structure Yields {α : Type} (limits : Limits) (x : Except ShapeFault α) (accepted : Prop) (a : α) :
    Prop where
  ok : accepted → x = .ok a
  error : ¬ accepted → x = .error (.tooDeep limits.depth)

section Depth

variable {limits : Limits} {depth : Nat} {α β : Type}

theorem Yields.pure (a : α) : Yields limits (.ok a) True a :=
  ⟨fun _ => rfl, fun h => absurd trivial h⟩

theorem Yields.bind {x : Except ShapeFault α} {f : α → Except ShapeFault β} {p q : Prop} {a : α}
    {b : β} (hx : Yields limits x p a) (hf : p → Yields limits (f a) q b) :
    Yields limits (x >>= f) (p ∧ q) b := by
  constructor
  · rintro ⟨hp, hq⟩
    rw [hx.ok hp]
    exact (hf hp).ok hq
  · intro hpq
    by_cases hp : p
    · rw [hx.ok hp]
      exact (hf hp).error fun hq => hpq ⟨hp, hq⟩
    · rw [hx.error hp]
      rfl

theorem Yields.congr {x : Except ShapeFault α} {p q : Prop} {a : α} (hx : Yields limits x p a)
    (h : p ↔ q) : Yields limits x q a :=
  propext h ▸ hx

theorem Yields.map {x : Except ShapeFault α} {p : Prop} {a : α} (hx : Yields limits x p a)
    {g : α → β} : Yields limits (x >>= fun a => .ok (g a)) p (g a) :=
  (hx.bind fun _ => .pure (g a)).congr (iff_of_eq (and_true p))

theorem Yields.eq_of_eq_ok {x : Except ShapeFault α} {p : Prop} {a b : α} (hx : Yields limits x p a)
    (h : x = .ok b) : b = a := by
  by_cases hp : p
  · rw [hx.ok hp] at h
    exact (Except.ok.inj h).symm
  · rw [hx.error hp] at h
    cases h

theorem yields_checkDepth : Yields limits (checkDepth limits depth) (depth ≤ limits.depth) () where
  ok h := if_neg (Nat.not_lt.mpr h)
  error h := if_pos (Nat.not_le.mp h)

theorem fits_null : Fits limits depth .null :=
  fun _ h => by cases h

theorem fits_scalar {l : Literal} : Fits limits depth (.scalar l) :=
  fun _ h => by cases h

theorem fits_foreign : Fits limits depth .foreign :=
  fun _ h => by cases h

theorem fits_list_iff {items : List Sample} :
    Fits limits depth (.list items) ↔
      depth ≤ limits.depth ∧ ∀ v ∈ items, Fits limits (depth + 1) v := by
  constructor
  · intro h
    refine ⟨h 0 (.array items), fun v hv n hn => ?_⟩
    have hle := h (n + 1) (.item hv hn)
    omega
  · rintro ⟨hdepth, h⟩ n hn
    cases hn with
    | array => exact hdepth
    | @item _ v n hv hn =>
        have hle := h v hv n hn
        omega

theorem fits_record_iff {fields : List (String × Sample)} :
    Fits limits depth (.record fields) ↔
      ∀ e ∈ fields, depth + 1 ≤ limits.depth ∧ Fits limits (depth + 1) e.2 := by
  constructor
  · intro h e he
    refine ⟨h 1 (.value he), fun n hn => ?_⟩
    have hle := h (n + 1) (.inner he hn)
    omega
  · intro h n hn
    cases hn with
    | @value _ e he => exact (h e he).1
    | @inner _ e n he hn =>
        have hle := (h e he).2 n hn
        omega

end Depth

/-- What is read off the items and the values inside a sample, at any depth. -/
structure YieldsOutline (limits : Limits) (v : Sample) : Prop where
  items : ∀ items, v = .list items → ∀ depth, Yields limits (partsAt limits depth items)
    (∀ w ∈ items, Fits limits (depth + 1) w) (Parts.ofShapes (offers limits.literals items))
  values : ∀ fields, v = .record fields → ∀ depth, Yields limits (fieldsAt limits depth fields)
    (∀ e ∈ fields, depth ≤ limits.depth ∧ Fits limits depth e.2)
    (outlineFields limits.literals fields)

section Reading

variable {limits : Limits}

theorem yields_arrayShape (limits : Limits) (items : List Sample) :
    Yields limits (arrayShape limits (Parts.ofShapes (offers limits.literals items))) True
      ((list items).outline limits.literals) :=
  arrayShape_eq limits items ▸ .pure _

theorem YieldsOutline.shapeAt {v : Sample} (hv : YieldsOutline limits v) (depth : Nat) :
    Yields limits (shapeAt limits depth v) (depth ≤ limits.depth ∧ Fits limits depth v)
      (v.outline limits.literals) := by
  rw [shapeAt.eq_def]
  refine yields_checkDepth.bind fun hdepth => ?_
  cases v with
  | null => exact (Yields.pure _).congr (iff_of_true trivial fits_null)
  | scalar l => exact (Yields.pure _).congr (iff_of_true trivial fits_scalar)
  | foreign => exact (Yields.pure _).congr (iff_of_true trivial fits_foreign)
  | list items =>
      refine ((hv.items items rfl depth).bind fun _ => yields_arrayShape limits items).congr ?_
      rw [fits_list_iff, and_true]
      exact (and_iff_right hdepth).symm
  | record fields =>
      exact (hv.values fields rfl (depth + 1)).map.congr fits_record_iff.symm

theorem yields_fieldsAt : ∀ {fields : List (String × Sample)},
    (∀ e ∈ fields, YieldsOutline limits e.2) → ∀ depth,
    Yields limits (fieldsAt limits depth fields)
      (∀ e ∈ fields, depth ≤ limits.depth ∧ Fits limits depth e.2)
      (outlineFields limits.literals fields)
  | [], _, _ => by
      rw [fieldsAt, outlineFields]
      exact (Yields.pure _).congr (by simp)
  | (name, v) :: rest, h, depth => by
      have ih := yields_fieldsAt (fun e he => h e (List.mem_cons_of_mem _ he)) depth
      have hv : YieldsOutline limits v := h _ List.mem_cons_self
      rw [fieldsAt, outlineFields, List.forall_mem_cons]
      exact (hv.shapeAt depth).bind fun _ => ih.map

/-- The parts of the items of an array. -/
theorem yields_partsAt : ∀ {items : List Sample}, (∀ v ∈ items, YieldsOutline limits v) →
    ∀ depth, Yields limits (partsAt limits depth items)
      (∀ w ∈ items, Fits limits (depth + 1) w) (Parts.ofShapes (offers limits.literals items))
  | [], _, _ => by
      rw [partsAt, offers]
      exact (Yields.pure _).congr (by simp)
  | v :: rest, h, depth => by
      have ih := yields_partsAt (fun w hw => h w (List.mem_cons_of_mem v hw)) depth
      have hv := h v List.mem_cons_self
      rw [partsAt, offers_eq_map, List.map_cons, ← offers_eq_map, List.forall_mem_cons, and_comm]
      -- the parts of the other items are there; the head is read in place
      refine ih.bind fun _ => ?_
      cases v with
      | null => exact (Yields.pure _).congr (iff_of_true trivial fits_null)
      | scalar l => exact (Yields.pure _).congr (iff_of_true trivial fits_scalar)
      | foreign => exact (Yields.pure _).congr (iff_of_true trivial fits_foreign)
      | list items =>
          refine (yields_checkDepth.bind fun _ => (hv.items items rfl (depth + 1)).bind fun _ =>
            (yields_arrayShape limits items).map).congr ?_
          rw [fits_list_iff, and_true]
      | record fields =>
          exact (hv.values fields rfl (depth + 2)).map.congr fits_record_iff.symm

theorem yieldsOutline (limits : Limits) (v : Sample) : YieldsOutline limits v := by
  induction v using nestedInduction with
  | null => exact ⟨fun _ h => (by cases h), fun _ h => (by cases h)⟩
  | scalar l => exact ⟨fun _ h => (by cases h), fun _ h => (by cases h)⟩
  | foreign => exact ⟨fun _ h => (by cases h), fun _ h => (by cases h)⟩
  | list items ih =>
      refine ⟨fun items' heq depth => ?_, fun _ h => (by cases h)⟩
      cases heq
      exact yields_partsAt ih depth
  | record fields ih =>
      refine ⟨fun _ h => (by cases h), fun fields' heq depth => ?_⟩
      cases heq
      exact yields_fieldsAt ih depth

/-- Inference yields the outline, unless a measured node lies too deep. -/
theorem yields_shape (limits : Limits) (v : Sample) :
    Yields limits (v.shape limits) (Fits limits 0 v) (v.outline limits.literals) :=
  ((yieldsOutline limits v).shapeAt 0).congr (and_iff_right (Nat.zero_le _))

/-- Where the depth of a sample is accepted, inference yields its outline. -/
theorem eq_outline_of_shape_eq_ok {v : Sample} {s : Shape} (h : v.shape limits = .ok s) :
    s = v.outline limits.literals :=
  (yields_shape limits v).eq_of_eq_ok h

end Reading

end TypeSketch.Sample
