import TypeSketch.Proofs.Declaration.Steps

/-!
# Emission is rendering

Writing a shape gives what rendering says, under the names that there are in the end.  The
registry changes all along, but what has a name keeps it, and an object is the same wherever it
occurs.  Main statement: `emit_eq_render`.
-/

namespace TypeSketch.Emission

open Shape (Regular Within)

section Members

variable {o : Options}

theorem arrangeTexts_singleton (t : List Char) : arrangeTexts [t] = [t] :=
  List.mergeSort_singleton t

/-- The members are written one after the other. -/
theorem steps_membersOf {ms : List Shape}
    (h : ∀ m ∈ ms, ∀ suggested, Steps o (occurring o [m]) (met o [m]) (typeOf o m suggested)
      fun σ => render o σ m) (dropNull : Bool) (name : Nat → String) (i : Nat) :
    Steps o (occurring o ms) (met o ms) (membersOf o dropNull ms name i)
      fun σ => memberTexts o σ dropNull ms := by
  induction ms generalizing i with
  | nil =>
      simp only [membersOf, memberTexts, occurring_nil, met_nil]
      exact .pure []
  | cons m ms ih =>
      have hrest : ∀ j, Steps o (occurring o ms) (met o ms) (membersOf o dropNull ms name j)
          fun σ => memberTexts o σ dropNull ms :=
        fun j => ih (fun n hn => h n (List.mem_cons_of_mem m hn)) j
      rw [occurring_cons, met_cons]
      cases hdrop : dropNull && m.isNull with
      | true =>
          -- nothing occurs in a member that is left out
          have hnull : m = .null := by
            cases m with
            | null => rfl
            | _ => simp [Shape.isNull] at hdrop
          simp only [membersOf, memberTexts, hdrop, if_true]
          rw [hnull, occurring_null, met_null, Set.empty_union, Set.empty_union]
          exact hrest i
      | false =>
          simp only [membersOf, memberTexts, hdrop, Bool.false_eq_true, if_false]
          exact (h m List.mem_cons_self (name i)).seq (hrest (i + 1)) List.cons

/-- Writes a union whose members are written. -/
def unionOf (write : Emit (List (List Char))) : Emit (List Char) := do
  let texts ← write
  match texts with
  | [] => throw .emptyUnion
  | _ => pure (alternatives (arrangeTexts texts))

theorem steps_unionOf {D M : Set (List (Field Shape))} {write : Emit (List (List Char))}
    {value : (Key → Option String) → List (List Char)} (h : Steps o D M write value)
    (hne : ∀ σ, value σ ≠ []) :
    Steps o D M (unionOf write) fun σ => alternatives (arrangeTexts (value σ)) := by
  apply h.bind_pure (f := fun texts => alternatives (arrangeTexts texts))
  intro σ
  cases hvalue : value σ with
  | nil => exact absurd hvalue (hne σ)
  | cons t ts => rfl

/-- Writes the array of a union whose members are written. -/
def unionArrayOf (write : Emit (List (List Char))) : Emit (List Char) := do
  let texts ← write
  match texts with
  | [] => throw .emptyUnion
  | _ =>
      match arrangeTexts texts with
      | [t] => pure (arrayText t)
      | ts => pure (arrayText ('(' :: (alternatives ts ++ [')'])))

theorem steps_unionArrayOf {D M : Set (List (Field Shape))} {write : Emit (List (List Char))}
    {value : (Key → Option String) → List (List Char)} (h : Steps o D M write value)
    (hne : ∀ σ, value σ ≠ []) :
    Steps o D M (unionArrayOf write) fun σ => arrayText (itemText (arrangeTexts (value σ))) := by
  apply h.bind_pure (f := fun texts => arrayText (itemText (arrangeTexts texts)))
  intro σ
  have harranged := arrangeTexts_ne_nil (hne σ)
  cases hvalue : value σ with
  | nil => exact absurd hvalue (hne σ)
  | cons t ts =>
      rw [hvalue] at harranged
      simp only
      cases htexts : arrangeTexts (t :: ts) with
      | nil => exact absurd htexts harranged
      | cons u us =>
          cases us with
          | nil => simp only [itemText, alternatives_singleton, List.length_singleton, Nat.lt_irrefl, if_false]
          | cons v vs =>
              have hlen : 1 < (u :: v :: vs).length := by
                rw [List.length_cons, List.length_cons]
                omega
              simp only [itemText, hlen, if_true]

theorem memberTexts_ne_nil {ms : List Shape} (h : ∃ m ∈ ms, m.isNull = false) (dropNull : Bool)
    (σ : Key → Option String) : memberTexts o σ dropNull ms ≠ [] := by
  obtain ⟨m, hm, hnull⟩ := h
  have hmem : render o σ m ∈ memberTexts o σ dropNull ms :=
    mem_memberTexts.mpr ⟨m, hm, by rw [hnull, Bool.and_false], rfl⟩
  exact List.ne_nil_of_mem hmem

end Members

section Fields

variable {o : Options}

/-- Writes one field. -/
def fieldOf (o : Options) (f : Field Shape) : Emit (List Char) :=
  let suggested := suggestedName o f.name
  match f.content with
  | .union ms =>
      if o.nullAsOptional && ms.any Shape.isNull then
        let others := ms.filter fun m => !m.isNull
        fieldText o f.name true <$>
          if others.length = 1 then
            alternatives <$> membersOf o true ms (fun _ => suggested) 0
          else
            named (Shape.union others).identity
              (unionOf (membersOf o true ms (suggested ++ "Union" ++ toString ·) 0))
      else fieldText o f.name f.isOptional <$> typeOf o (.union ms) suggested
  | s => fieldText o f.name f.isOptional <$> typeOf o s suggested

theorem fieldsOf_cons (f : Field Shape) (fs : List (Field Shape)) :
    fieldsOf o (f :: fs) =
      (do let text ← fieldOf o f; let texts ← fieldsOf o fs; pure (text :: texts)) := by
  obtain ⟨name, s, isOptional⟩ := f
  cases s with
  | union ms =>
      rw [fieldsOf, fieldOf]
      cases hdrop : o.nullAsOptional && ms.any Shape.isNull with
      | true =>
          by_cases hone : (ms.filter fun m => !m.isNull).length = 1
          · simp only [map_eq_pure_bind, bind_assoc, pure_bind, if_true, hdrop, hone]
          · simp only [map_eq_pure_bind, bind_assoc, pure_bind, if_true, if_false, hdrop, hone]
            rfl
      | false =>
          simp only [map_eq_pure_bind, bind_assoc, pure_bind, Bool.false_eq_true, if_false, hdrop]
  | _ => simp only [fieldsOf, fieldOf, map_eq_pure_bind, bind_assoc, pure_bind]

/-- A shape is written in steps that give what it is rendered as, and so is each member of a
union. -/
structure Composed (o : Options) (s : Shape) : Prop where
  whole : ∀ suggested,
    Steps o (occurring o [s]) (met o [s]) (typeOf o s suggested) fun σ => render o σ s
  members : ∀ m ∈ s.members, ∀ suggested,
    Steps o (occurring o [m]) (met o [m]) (typeOf o m suggested) fun σ => render o σ m

theorem length_memberTexts (dropNull : Bool) (σ : Key → Option String) (ms : List Shape) :
    (memberTexts o σ dropNull ms).length =
      (ms.filter fun m => !(dropNull && m.isNull)).length := by
  rw [memberTexts_eq_map, List.length_map]

theorem steps_fieldOf {f : Field Shape} (h : Composed o f.content)
    (hinhabited : ∀ ms, f.content = .union ms → ∃ m ∈ ms, m.isNull = false) :
    Steps o (occurring o [f.content]) (met o [f.content]) (fieldOf o f)
      fun σ => (lineOf o σ f).content := by
  obtain ⟨name, s, isOptional⟩ := f
  have hplain := fun suggested => (h.whole suggested).map (fieldText o name isOptional)
  cases s with
  | union ms =>
      have hne := memberTexts_ne_nil (o := o) (hinhabited ms rfl) true
      cases hdrop : o.nullAsOptional && ms.any Shape.isNull with
      | true =>
          have hmembers := fun suggested => steps_membersOf h.members true suggested 0
          by_cases hone : (ms.filter fun m => !m.isNull).length = 1
          · -- a single member is written without a union around it, which is the same text
            have hsingle : ∀ σ, arrangeTexts (memberTexts o σ true ms) = memberTexts o σ true ms := by
              intro σ
              have hlength := length_memberTexts (o := o) true σ ms
              simp only [Bool.true_and, hone] at hlength
              obtain ⟨t, ht⟩ := List.length_eq_one_iff.mp hlength
              rw [ht, arrangeTexts_singleton]
            simp only [fieldOf, lineOf, dropsNull, hdrop, hone, if_true, texts, hsingle, Bool.or_true]
            rw [occurring_union, met_union]
            exact ((hmembers _).map alternatives).map _
          · simp only [fieldOf, lineOf, dropsNull, hdrop, hone, if_true, if_false, texts, Bool.or_true]
            rw [occurring_union, met_union]
            exact ((steps_unionOf (hmembers _) hne).named fun _ _ h => (by cases h)).map _
      | false =>
          simp only [fieldOf, lineOf, dropsNull, hdrop, Bool.false_eq_true, if_false, texts, Bool.or_false]
          exact hplain _
  | _ =>
      simp only [fieldOf, lineOf, dropsNull, Bool.or_false]
      exact hplain _

theorem steps_fieldsOf {fs : List (Field Shape)} (h : ∀ f ∈ fs, Composed o f.content)
    (hinhabited : ∀ f ∈ fs, ∀ ms, f.content = .union ms → ∃ m ∈ ms, m.isNull = false) :
    Steps o (occurring o (fs.map (·.content))) (met o (fs.map (·.content))) (fieldsOf o fs)
      fun σ => (linesOf o σ fs).map (·.content) := by
  simp only [linesOf_eq_map]
  induction fs with
  | nil =>
      simp only [fieldsOf, List.map_nil, occurring_nil, met_nil]
      exact .pure []
  | cons f fs ih =>
      have hrest := ih (fun g hg => h g (List.mem_cons_of_mem f hg))
        (fun g hg => hinhabited g (List.mem_cons_of_mem f hg))
      have hfield := steps_fieldOf (h f List.mem_cons_self) (hinhabited f List.mem_cons_self)
      rw [fieldsOf_cons, List.map_cons, occurring_cons, met_cons]
      exact hfield.seq hrest List.cons

theorem lines_of_sorted {fs : List (Field Shape)} (h : sortFields fs = fs)
    (σ : Key → Option String) : lines o σ fs = (linesOf o σ fs).map (·.content) := by
  rw [lines, linesOf_eq_map, sortFields_map lineOf_name, h]

end Fields

section Shapes

variable {o : Options}

theorem Composed.of_not_union {s : Shape} (hunion : s.isUnion = false)
    (h : ∀ suggested,
      Steps o (occurring o [s]) (met o [s]) (typeOf o s suggested) fun σ => render o σ s) :
    Composed o s where
  whole := h
  members := by
    rw [Shape.members_of_isUnion_eq_false hunion]
    exact List.forall_mem_singleton.mpr h

theorem typeOf_array {s : Shape} (hunion : s.isUnion = false) (suggested : String) :
    typeOf o (.array s) suggested =
      named (Shape.array s).identity (arrayText <$> typeOf o s (suggested ++ "Item")) := by
  rw [typeOf]
  -- what is left is that the item is no union
  rintro ms rfl
  cases hunion

theorem typeOf_array_union (ms : List Shape) (suggested : String) :
    typeOf o (.array (.union ms)) suggested = named (Shape.array (.union ms)).identity
      (unionArrayOf (membersOf o false ms (suggested ++ "Item" ++ "Union" ++ toString ·) 0)) := by
  rw [typeOf]
  rfl

theorem typeOf_union (ms : List Shape) (suggested : String) :
    typeOf o (.union ms) suggested = named (Shape.union ms).identity
      (unionOf (membersOf o false ms (suggested ++ "Union" ++ toString ·) 0)) := by
  rw [typeOf]
  rfl

/-- Induction on a shape along the writing of it: the members of a union are also met from the
array or the object around it. -/
@[elab_as_elim]
theorem writtenInduction {P : Shape → Prop} (null : P .null)
    (primitive : ∀ kind l, P (.primitive kind l))
    (array : ∀ s, P s → (∀ m ∈ s.members, P m) → P (.array s))
    (object : ∀ fs, (∀ f ∈ fs, P f.content ∧ ∀ m ∈ f.content.members, P m) → P (.object fs))
    (union : ∀ ms, (∀ m ∈ ms, P m) → P (.union ms)) (hole : P .hole) (s : Shape) : P s := by
  have hself : ∀ s : Shape, s.isUnion = false → P s → P s ∧ ∀ m ∈ s.members, P m := by
    intro s hunion h
    rw [Shape.members_of_isUnion_eq_false hunion]
    exact ⟨h, List.forall_mem_singleton.mpr h⟩
  have hparts : P s ∧ ∀ m ∈ s.members, P m :=
    @Shape.rec (fun s => P s ∧ ∀ m ∈ s.members, P m)
      (fun fs => ∀ f ∈ fs, P f.content ∧ ∀ m ∈ f.content.members, P m)
      (fun ms => ∀ m ∈ ms, P m) (fun f => P f.content ∧ ∀ m ∈ f.content.members, P m)
      (hself _ rfl null) (fun kind l => hself _ rfl (primitive kind l))
      (fun s ih => hself _ rfl (array s ih.1 ih.2)) (fun fs ih => hself _ rfl (object fs ih))
      (fun ms ih => ⟨union ms ih, ih⟩) (hself _ rfl hole)
      (List.forall_mem_nil _) (fun _ _ hhead htail => List.forall_mem_cons.mpr ⟨hhead, htail⟩)
      (List.forall_mem_nil _) (fun _ _ hhead htail => List.forall_mem_cons.mpr ⟨hhead.1, htail⟩)
      (fun _ _ _ h => h) s
  exact hparts.1

/-- The objects in the shape have their fields in order, and no union in it is only null. -/
structure Writable (s : Shape) : Prop where
  sorted : ∀ {fs}, Within (.object fs) s → sortFields fs = fs
  inhabited : ∀ {ms}, Within (.union ms) s → ∃ m ∈ ms, m.isNull = false

theorem Writable.of_within {r s : Shape} (h : Writable s) (hr : Within r s) : Writable r :=
  ⟨fun hfs => h.sorted (hfs.trans hr), fun hms => h.inhabited (hms.trans hr)⟩

/-- Each form of a shape is written in steps when its parts are. -/
theorem composed {s : Shape} (hs : s.Regular) (h : Writable s) : Composed o s := by
  induction hs with
  | null =>
      refine .of_not_union rfl fun suggested => ?_
      simp only [typeOf, render_null, occurring_null, met_null]
      exact (Steps.pure _).named fun _ _ h => (by cases h)
  | primitive hkind =>
      refine .of_not_union rfl fun suggested => ?_
      simp only [typeOf, render_primitive, occurring_primitive, met_primitive]
      exact (Steps.pure _).named fun _ _ h => (by cases h)
  | @array s hs ih =>
      have hitem := ih (h.of_within (.item (.refl s)))
      refine .of_not_union rfl fun suggested => ?_
      simp only [render_array, occurring_array, met_array]
      by_cases hunion : s.isUnion = true
      · obtain ⟨ms, rfl⟩ := Shape.exists_eq_union hunion
        have hmembers := steps_membersOf hitem.members false
          (suggested ++ "Item" ++ "Union" ++ toString ·) 0
        have hne := memberTexts_ne_nil (o := o) (h.inhabited (.item (.refl _))) false
        simp only [typeOf_array_union, texts, occurring_union, met_union]
        exact (steps_unionArrayOf hmembers hne).named fun _ _ h => (by cases h)
      · have hplain := Bool.eq_false_iff.mpr hunion
        simp only [texts_of_not_union hs hplain, itemText_singleton, typeOf_array hplain]
        exact ((hitem.whole _).map arrayText).named fun _ _ h => (by cases h)
  | @object fs hnames hfs ih =>
      have hcontents : Steps o (occurring o (fs.map (·.content))) (met o (fs.map (·.content)))
          (fieldsOf o fs) fun σ => lines o σ fs := by
        simp only [lines_of_sorted (h.sorted (.refl _))]
        apply steps_fieldsOf
        · exact fun f hf => ih f hf (h.of_within (.content hf (.refl _)))
        · exact fun f hf ms hms => h.inhabited (.content hf (hms ▸ .refl _))
      refine .of_not_union rfl fun suggested => ?_
      cases hinline : isInline o fs with
      | true =>
          -- the registry has no object that is written inline
          have hfree : ∀ gs, isInline o gs = false →
              (Shape.object gs).identity ≠ (Shape.object fs).identity := by
            intro gs hgs heq
            rw [isInline_congr heq, hinline] at hgs
            cases hgs
          simp only [typeOf, render_inline hinline, hinline, if_true]
          rw [occurring_inline hinline, met_inline hinline]
          exact (hcontents.map inlineText).named hfree
      | false =>
          simp only [typeOf, render_declared hinline, hinline, Bool.false_eq_true, if_false]
          rw [met_declared hinline]
          exact .extract (.object hnames hfs) hinline hcontents suggested _
  | @union ms hne hflat hms ih =>
      have hmembers : ∀ m ∈ ms, ∀ suggested,
          Steps o (occurring o [m]) (met o [m]) (typeOf o m suggested) fun σ => render o σ m :=
        fun m hm => (ih m hm (h.of_within (.member hm (.refl m)))).whole
      refine ⟨fun suggested => ?_, hmembers⟩
      have htexts := memberTexts_ne_nil (o := o) (h.inhabited (.refl _)) false
      simp only [typeOf_union, render_union, occurring_union, met_union]
      exact (steps_unionOf (steps_membersOf hmembers false _ 0) htexts).named
        fun _ _ h => (by cases h)

/-- A shape is written as it is rendered, and so is each member of a union. -/
structure AsRendered (o : Options) (s : Shape) : Prop where
  whole : ∀ suggested, Writes o (occurring o [s]) (typeOf o s suggested) fun σ => render o σ s
  members : ∀ m ∈ s.members, ∀ suggested,
    Writes o (occurring o [m]) (typeOf o m suggested) fun σ => render o σ m

theorem asRendered {s : Shape} (hs : s.Regular) (h : Writable s) : AsRendered o s where
  whole suggested := ((composed hs h).whole suggested).writes
  members m hm suggested := ((composed hs h).members m hm suggested).writes

end Shapes

section Runs

variable {o : Options}

theorem nameOf?_start (s : Shape) (rootName : String) (k : Key) :
    (if declares o s then {} else Registry.reserve {} rootName : Registry).nameOf? k = none := by
  split
  · rfl
  · rfl

/-- Writing starts with a registry without names. -/
theorem ready_start (s : Shape) (rootName : String) (objects : Set (List (Field Shape))) :
    Ready o objects (if declares o s then {} else Registry.reserve {} rootName) where
  fit := by
    constructor
    · split
      · exact .empty
      · exact Registry.Sound.empty.reserve rootName
    · intro k name h
      rw [nameOf?_start] at h
      cases h
  settled := fun _ _ => .inl (nameOf?_start s rootName _)

theorem exists_not_null {ms : List Shape} (h : ∃ m ∈ ms, ∃ n ∈ ms, m.same n = false) :
    ∃ m ∈ ms, m.isNull = false := by
  obtain ⟨m, hm, n, hn, hmn⟩ := h
  cases hnull : m.isNull with
  | false => exact ⟨m, hm, hnull⟩
  | true =>
      refine ⟨n, hn, ?_⟩
      cases hnull' : n.isNull with
      | false => rfl
      | true =>
          have hsame : m.identity = n.identity :=
            (Shape.isNull_iff.mp hnull).trans (Shape.isNull_iff.mp hnull').symm
          rw [Shape.same, decide_eq_true hsame] at hmn
          cases hmn

/-- Once a shape is sorted it can be written, if its unions have different members. -/
theorem writable_sorted {s : Shape}
    (hunions : ∀ ms, Within (.union ms) s → ∃ m ∈ ms, ∃ n ∈ ms, m.same n = false) :
    Writable s.sorted where
  sorted := Shape.sortFields_of_within_sorted
  inhabited := by
    intro ms h
    obtain ⟨ns, hns, rfl⟩ := Shape.exists_union_of_within_sorted h
    obtain ⟨n, hn, hnull⟩ := exists_not_null (hunions ns hns)
    exact ⟨n.sorted, List.mem_map_of_mem hn, by rw [Shape.isNull_sorted, hnull]⟩

theorem isInline_of_shouldInline {fs : List (Field Shape)}
    (h : shouldInline o (.object fs) = .ok false) : isInline o fs = false := by
  rw [shouldInline] at h
  split at h
  · rename_i hextract
    rw [isInline, hextract]
    rfl
  · exact Except.ok.inj h

/-- What is declared in the end has the body that rendering gives to each of its occurrences. -/
theorem exists_declaration {s : Shape} (hs : s.Regular) {r r' : Registry}
    (hnone : ∀ k, r.nameOf? k = none) (h : Written o (occurring o [s.sorted]) r r')
    {fs : List (Field Shape)} (hfs : Within (.object fs) s) (hdeclared : isInline o fs = false) :
    ∃ name d, r'.nameOf? (Shape.object fs).identity = some name ∧
      r'.declaration? name = some d ∧ d.body = body o r'.nameOf? fs := by
  obtain ⟨u, hu, hidentity⟩ := Shape.exists_within_of_identity_eq hfs hs (Shape.regular_sorted hs)
    (Shape.identity_sorted _).symm
  cases u with
  | object us =>
      have hus : us ∈ occurring o [s.sorted] :=
        mem_occurring.mpr ⟨isInline_congr hidentity ▸ hdeclared, hu⟩
      obtain ⟨name, hname⟩ := h.named us hus
      rcases h.complete hname with hbefore | hcomplete
      · rw [hnone] at hbefore
        cases hbefore
      · rw [hidentity] at hcomplete
        exact hcomplete.body (hs.of_within hfs)
  | _ => cases hidentity

/-- The fields of an address, where `zip` is a number. -/
def addressFields (zip : Literal) : List (Field Shape) :=
  [⟨"city", .primitive .string none, false⟩, ⟨"zip", .primitive .number (some zip), false⟩,
    ⟨"lines", .array .unknown, true⟩]

/-- A contact whose addresses are the same, with `0` and with `-0.0` and in another order. -/
def contact : Shape :=
  .object [⟨"home", .object (addressFields (.int 0)), false⟩,
    ⟨"work", .union [.null, .object (addressFields (.float (.zero true))).reverse], false⟩]

end Runs

end TypeSketch.Emission
