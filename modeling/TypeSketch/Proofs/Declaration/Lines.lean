import TypeSketch.Proofs.Declaration.Keys
import TypeSketch.Proofs.Declaration.Usable

/-!
# One line for each field

The body of a declaration has a line for each field, from which the name of the field is read back.
This needs field names, strings and a name of the root on a single line: a line feed behind a word
is printed with it, and a line break in quotes is printed as it is.  `Lays` says of a step of
writing what it lays out: declarations with such bodies, and nothing else.  Main statement:
`fields_read_back`.
-/

namespace TypeSketch

namespace Text

theorem unbroken_separated {separator : List Char} {texts : List (List Char)}
    (hseparator : Unbroken separator) (h : ∀ t ∈ texts, Unbroken t) :
    Unbroken (separated separator texts) := by
  induction texts with
  | nil => exact unbroken_nil
  | cons t texts ih =>
      obtain ⟨ht, htexts⟩ := List.forall_mem_cons.mp h
      cases texts with
      | nil => rwa [separated_singleton]
      | cons u texts =>
          rw [separated_cons_cons]
          exact unbroken_append.mpr ⟨ht, unbroken_append.mpr ⟨hseparator, ih htexts⟩⟩

/-- Lines are found again. -/
theorem splitOnP_separated {texts : List (List Char)} (hne : texts ≠ [])
    (h : ∀ t ∈ texts, Unbroken t) : (separated ['\n'] texts).splitOnP isLineBreak = texts := by
  induction texts with
  | nil => exact absurd rfl hne
  | cons t texts ih =>
      obtain ⟨ht, htexts⟩ := List.forall_mem_cons.mp h
      cases texts with
      | nil => rw [separated_singleton, List.splitOnP_eq_singleton ht]
      | cons u texts =>
          have hrest := ih (List.cons_ne_nil u texts) htexts
          rw [separated_cons_cons, List.singleton_append,
            List.splitOnP_append_cons_of_forall_mem ht _ (by decide), hrest]

theorem unbroken_enclosed {quote : Char} (hquote : isLineBreak quote = false) {s : List Char}
    (hs : Unbroken s) : Unbroken (enclosed quote s) := by
  have hchars : Unbroken (s.flatMap (enclosedChar quote)) := by
    intro c hc
    obtain ⟨d, hd, hcd⟩ := List.mem_flatMap.mp hc
    rw [enclosedChar] at hcd
    split at hcd
    · rcases List.mem_cons.mp hcd with rfl | hcd
      · decide
      · exact List.mem_singleton.mp hcd ▸ hs d hd
    · exact List.mem_singleton.mp hcd ▸ hs d hd
  exact unbroken_cons.mpr ⟨hquote, unbroken_append.mpr
    ⟨hchars, unbroken_cons.mpr ⟨hquote, unbroken_nil⟩⟩⟩

end Text

open Text (Unbroken isLineBreak)

namespace Shape

/-- A shape whose field names and strings are on single lines. -/
inductive Unbroken : Shape → Prop
  | null : Unbroken .null
  | primitive {kind : Kind} {l : Option Literal}
      (h : ∀ t, l = some (.str t) → Text.Unbroken t.toList) : Unbroken (.primitive kind l)
  | array {s : Shape} (hs : Unbroken s) : Unbroken (.array s)
  | object {fs : List (Field Shape)} (hnames : ∀ f ∈ fs, Text.Unbroken f.name.toList)
      (hcontents : ∀ f ∈ fs, Unbroken f.content) : Unbroken (.object fs)
  | union {ms : List Shape} (hms : ∀ m ∈ ms, Unbroken m) : Unbroken (.union ms)
  | hole : Unbroken .hole

theorem Unbroken.of_mem_members {s m : Shape} (h : s.Unbroken) (hm : m ∈ s.members) :
    m.Unbroken := by
  cases hunion : s.isUnion with
  | true =>
      obtain ⟨ms, rfl⟩ := exists_eq_union hunion
      cases h with
      | union hms => exact hms m hm
  | false =>
      rw [members_of_isUnion_eq_false hunion] at hm
      exact List.mem_singleton.mp hm ▸ h

theorem Unbroken.sorted {s : Shape} (h : s.Unbroken) : s.sorted.Unbroken := by
  induction h with
  | null => exact .null
  | primitive h => exact .primitive h
  | array _ ih => exact .array ih
  | @object fs hnames _ ih =>
      rw [sorted_object]
      apply Unbroken.object
      · intro f hf
        obtain ⟨g, hg, rfl⟩ := List.mem_map.mp hf
        exact hnames g (mem_sortFields.mp hg)
      · intro f hf
        obtain ⟨g, hg, rfl⟩ := List.mem_map.mp hf
        exact ih g (mem_sortFields.mp hg)
  | @union ms _ ih =>
      rw [sorted_union]
      refine .union fun m hm => ?_
      obtain ⟨n, hn, rfl⟩ := List.mem_map.mp hm
      exact ih n hn
  | hole => exact .hole

end Shape

namespace Emission

variable {α β : Type} {o : Options}

section Texts

theorem isLineBreak_quote (style : QuoteStyle) : isLineBreak style.char = false := by
  cases style <;> decide

theorem unbroken_literal {l : Literal} (h : ∀ t, l = .str t → Unbroken t.toList) :
    Unbroken l.text := by
  have hnumber : ∀ {m : Literal}, m.kind = .number → Unbroken m.text := by
    intro m hm
    rcases Json.writtenAs_or_word hm with ⟨n, hn, htext, -⟩ | ⟨x, rfl, hx⟩
    · rw [← htext]
      exact Text.unbroken_of_forall (by decide) (by decide) (isNumeralChar_of_mem_text hn)
    · rcases hx with rfl | ⟨negative, rfl⟩
      · exact of_decide_eq_true rfl
      · cases negative <;> exact of_decide_eq_true rfl
  cases l with
  | bool b => cases b <;> exact of_decide_eq_true rfl
  | int n => exact hnumber rfl
  | float x => exact hnumber rfl
  | str t => exact h t rfl

theorem unbroken_primitiveText {kind : Kind} {l : Option Literal}
    (h : ∀ t, l = some (.str t) → Unbroken t.toList) : Unbroken (primitiveText o kind l) := by
  cases l with
  | none => cases kind <;> exact of_decide_eq_true rfl
  | some l =>
      have htext := unbroken_literal fun t ht => h t (congrArg some ht)
      have htoken : Unbroken (l.token kind).text := by
        apply unbroken_literal
        intro t ht
        cases l with
        | float x =>
            simp only [Literal.token] at ht
            split at ht <;> cases ht
        | str u => exact h t (congrArg some ht)
        | _ => cases ht
      unfold primitiveText
      cases kind with
      | string => exact Text.unbroken_enclosed (isLineBreak_quote o.quote) htext
      | _ =>
          dsimp only
          split
          · split <;> exact of_decide_eq_true rfl
          · exact htoken

theorem unbroken_printedKey (style : QuoteStyle) {s : List Char} (hs : Unbroken s) :
    Unbroken (Name.printedKey style.char s) := by
  rw [Name.printedKey]
  split
  · exact hs
  · exact Text.unbroken_enclosed (isLineBreak_quote style) hs

theorem unbroken_alternatives {texts : List (List Char)} (h : ∀ t ∈ texts, Unbroken t) :
    Unbroken (alternatives texts) := by
  have hseparator : Unbroken " | ".toList := by decide
  exact Text.unbroken_separated hseparator h

theorem unbroken_arrayText {t : List Char} (h : Unbroken t) : Unbroken (arrayText t) :=
  Text.unbroken_append.mpr ⟨h, by decide⟩

theorem unbroken_of_mem_arrangeTexts {texts : List (List Char)} (h : ∀ t ∈ texts, Unbroken t) :
    ∀ t ∈ arrangeTexts texts, Unbroken t :=
  fun t ht => h t (mem_distinctOn_id.mp (List.mem_mergeSort.mp ht))

end Texts

section Registries

/-- The text of a field, which is on a single line. -/
def FieldText (o : Options) (name : String) (text : List Char) : Prop :=
  Unbroken name.toList ∧
    ∃ isOptional type, Unbroken type ∧ text = fieldText o name isOptional type

theorem FieldText.unbroken {name : String} {text : List Char} (h : FieldText o name text) :
    Unbroken text := by
  obtain ⟨hname, isOptional, type, htype, rfl⟩ := h
  have hmark : Unbroken (if isOptional then ['?'] else []) := by cases isOptional <;> decide
  have hkey := unbroken_printedKey o.quote hname
  exact Text.unbroken_append.mpr ⟨Text.unbroken_append.mpr
    ⟨Text.unbroken_append.mpr ⟨hkey, hmark⟩, by decide⟩, htype⟩

theorem unbroken_of_fieldTexts {names : List String} {parts : List (List Char)}
    (h : List.Forall₂ (FieldText o) names parts) : ∀ t ∈ parts, Unbroken t := by
  induction h with
  | nil => exact List.forall_mem_nil _
  | cons hfield _ ih => exact List.forall_mem_cons.mpr ⟨hfield.unbroken, ih⟩

theorem unbroken_inlineText {parts : List (List Char)} (h : ∀ t ∈ parts, Unbroken t) :
    Unbroken (inlineText parts) := by
  cases parts with
  | nil => exact of_decide_eq_true rfl
  | cons p parts =>
      have hseparator : Unbroken "; ".toList := by decide
      have hparts := Text.unbroken_separated hseparator h
      exact Text.unbroken_append.mpr ⟨Text.unbroken_append.mpr ⟨by decide, hparts⟩, by decide⟩

/-- A declaration whose body has been written. -/
def Filled (o : Options) (d : Declaration) : Prop :=
  ∃ parts, d.body = bodyText o parts ∧ List.Forall₂ (FieldText o) d.fields parts

/-- A registry of distinct names that are on single lines. -/
structure Tidy (r : Registry) : Prop where
  sound : r.Sound
  nodup : (r.declarations.map (·.name)).Nodup
  unbroken : ∀ d ∈ r.declarations, Unbroken d.name.toList

variable {r : Registry}

theorem Tidy.unbroken_of_named (h : Tidy r) {k : Key} {name : String}
    (hname : r.nameOf? k = some name) : Unbroken name.toList := by
  obtain ⟨d, hd⟩ := h.sound.declared_of_named hname
  obtain ⟨hmem, rfl⟩ := Registry.mem_of_declaration? hd
  exact h.unbroken d hmem

theorem unbroken_toString (n : Nat) : Unbroken (toString n).toList :=
  Text.unbroken_of_forall (by decide) (by decide) fun _ => Name.isDigit_of_mem_toString

theorem unbroken_freeName {suggested : String} (h : Unbroken suggested.toList) :
    Unbroken (r.freeName suggested).toList := by
  obtain ⟨n, hn⟩ := Name.exists_unique_eq suggested r.used
  rw [Registry.freeName, hn]
  cases n with
  | zero => exact h
  | succ n =>
      rw [Name.candidate, String.toList_append]
      exact Text.unbroken_append.mpr ⟨h, unbroken_toString _⟩

theorem unbroken_suggestedName (name : String) : Unbroken (suggestedName o name).toList := by
  rw [suggestedName, String.toList_ofList]
  exact Name.unbroken_of_isWord (Name.isWord_typeName _)

/-- Names that are made from one on a single line are on single lines. -/
theorem NextName.unbroken {m n : String} (h : NextName o m n) (hm : Unbroken m.toList) :
    Unbroken n.toList := by
  cases h with
  | item =>
      rw [String.toList_append]
      exact Text.unbroken_append.mpr ⟨hm, by decide⟩
  | member i =>
      rw [String.toList_append, String.toList_append]
      exact Text.unbroken_append.mpr
        ⟨Text.unbroken_append.mpr ⟨hm, by decide⟩, unbroken_toString i⟩
  | field name => exact unbroken_suggestedName name

theorem Tidy.opened (h : Tidy r) (k : Key) {suggested : String}
    (hsuggested : Unbroken suggested.toList) (fields : List String) :
    Tidy (Writes.opened r k suggested fields) where
  sound := (h.sound.declare (r.freeName_notMem suggested) k).update (Writes.name_fields fields) _
  nodup := by
    rw [declarations_opened h.sound, List.map_append, List.map_singleton, List.nodup_append]
    refine ⟨h.nodup, List.nodup_singleton _, ?_⟩
    rintro n hn m hm rfl
    obtain ⟨d, hd, hname⟩ := List.mem_map.mp hn
    exact ne_freeName_of_mem h.sound suggested d hd (hname.trans (List.mem_singleton.mp hm))
  unbroken := by
    intro d hd
    rw [declarations_opened h.sound, List.mem_append, List.mem_singleton] at hd
    rcases hd with hd | rfl
    · exact h.unbroken d hd
    · exact unbroken_freeName hsuggested

theorem Tidy.update (h : Tidy r) {f : Declaration → Declaration} (hf : ∀ d, (f d).name = d.name)
    (name : String) : Tidy (r.update name f) where
  sound := h.sound.update hf name
  nodup := by
    rw [Registry.update, List.map_map]
    exact (List.map_congr_left fun d _ => Registry.name_updated hf name d) ▸ h.nodup
  unbroken := by
    intro d hd
    obtain ⟨d', hd', rfl⟩ := List.mem_map.mp hd
    rw [Registry.name_updated hf]
    exact h.unbroken d' hd'

end Registries

/-- A step that keeps a registry tidy, lays out the declarations that it adds, and has a result as
described, if it has one. -/
def Lays (o : Options) (w : Emit α) (P : α → Prop) : Prop :=
  ∀ e a e', Tidy e.registry → w e = (.ok a, e') → P a ∧ Tidy e'.registry ∧
    ∃ added, e'.registry.declarations = e.registry.declarations ++ added ∧
      ∀ d ∈ added, Filled o d

namespace Lays

variable {P : α → Prop} {Q : β → Prop} {w : Emit α}

theorem pure {a : α} (ha : P a) : Lays o (Pure.pure a : Emit α) P := by
  rintro _ _ _ he ⟨⟩
  exact ⟨ha, he, [], (List.append_nil _).symm, List.forall_mem_nil _⟩

theorem throw (fault : ShapeFault) : Lays o (MonadExcept.throw fault : Emit α) P := by
  rintro _ _ _ _ ⟨⟩

theorem bind (hw : Lays o w P) {g : α → Emit β} (hg : ∀ a, P a → Lays o (g a) Q) :
    Lays o (w >>= g) Q := by
  intro e b e' he hrun
  rcases run_cases w e with ⟨fault, e₁, hfirst⟩ | ⟨a, e₁, hfirst⟩
  · rw [bind_error hfirst] at hrun
    cases hrun
  · rw [Writes.bind_ok hfirst] at hrun
    obtain ⟨ha, he₁, added, hadded, hlaid⟩ := hw _ _ _ he hfirst
    obtain ⟨hb, he', added', hadded', hlaid'⟩ := hg a ha _ _ _ he₁ hrun
    refine ⟨hb, he', added ++ added', ?_, List.forall_mem_append.mpr ⟨hlaid, hlaid'⟩⟩
    rw [hadded', hadded, List.append_assoc]

theorem map (hw : Lays o w P) {f : α → β} (hf : ∀ a, P a → Q (f a)) : Lays o (f <$> w) Q := by
  rw [map_eq_pure_bind]
  exact hw.bind fun a ha => .pure (hf a ha)

theorem named {w : Emit (List Char)} (hw : Lays o w Unbroken) (k : Key) :
    Lays o (named k w) Unbroken := by
  intro e text e' he hrun
  cases hknown : e.registry.nameOf? k with
  | none =>
      rw [Writes.named_of_none hknown] at hrun
      exact hw _ _ _ he hrun
  | some name =>
      rw [Writes.named_of_some hknown] at hrun
      cases hrun
      exact ⟨he.unbroken_of_named hknown, he, [], (List.append_nil _).symm, List.forall_mem_nil _⟩

/-- A declaration is laid out when the texts of its fields are there. -/
theorem extract {fields : List String} {w : Emit (List (List Char))}
    (hw : Lays o w (List.Forall₂ (FieldText o) fields)) {suggested : String}
    (hsuggested : Unbroken suggested.toList) (k : Key) :
    Lays o (extract o k suggested fields w) Unbroken := by
  intro e text e' he hrun
  obtain ⟨parts, after, hwritten, rfl, rfl⟩ := exists_of_extract_eq_ok hrun
  obtain ⟨hparts, hafter, added, hadded, hlaid⟩ := hw _ _ _ (he.opened k hsuggested fields) hwritten
  rw [declarations_opened he.sound] at hadded
  -- the declarations that were added meanwhile have other names
  have hnew : ∀ d ∈ added, d.name ≠ e.registry.freeName suggested := by
    have hnodup := hafter.nodup
    rw [hadded, List.map_append, List.nodup_append] at hnodup
    intro d hd heq
    refine hnodup.2.2 _ ?_ _ (List.mem_map_of_mem hd) heq.symm
    exact List.mem_map.mpr ⟨_, List.mem_append_right _ (List.mem_singleton_self _), rfl⟩
  have hclosed : (Writes.closed o after.registry (e.registry.freeName suggested)
      after.references parts).declarations = _ :=
    declarations_closed hadded (ne_freeName_of_mem he.sound suggested) hnew
  rw [List.append_assoc, List.singleton_append] at hclosed
  refine ⟨unbroken_freeName hsuggested, ?_, _, hclosed, ?_⟩
  · exact (hafter.update (Writes.name_dependencies _) _).update (Writes.name_body parts) _
  · exact List.forall_mem_cons.mpr ⟨⟨parts, rfl, hparts⟩, hlaid⟩

theorem unionOf {w : Emit (List (List Char))} (hw : Lays o w fun ts => ∀ t ∈ ts, Unbroken t) :
    Lays o (unionOf w) Unbroken := by
  refine hw.bind fun texts htexts => ?_
  cases texts with
  | nil => exact .throw _
  | cons t ts => exact .pure (unbroken_alternatives (unbroken_of_mem_arrangeTexts htexts))

theorem unionArrayOf {w : Emit (List (List Char))}
    (hw : Lays o w fun ts => ∀ t ∈ ts, Unbroken t) : Lays o (unionArrayOf w) Unbroken := by
  refine hw.bind fun texts htexts => ?_
  have harranged := unbroken_of_mem_arrangeTexts htexts
  cases texts with
  | nil => exact .throw _
  | cons t ts =>
      dsimp only
      split
      · rename_i u heq
        rw [heq, List.forall_mem_singleton] at harranged
        exact .pure (unbroken_arrayText harranged)
      · refine .pure (unbroken_arrayText (Text.unbroken_cons.mpr ⟨by decide, ?_⟩))
        exact Text.unbroken_append.mpr ⟨unbroken_alternatives harranged, by decide⟩

end Lays

section Shapes

/-- A shape is laid out under every name that is on a single line. -/
def Laid (o : Options) (s : Shape) : Prop :=
  ∀ suggested, Unbroken suggested.toList → Lays o (typeOf o s suggested) Unbroken

theorem lays_membersOf {ms : List Shape} (h : ∀ m ∈ ms, Laid o m) (dropNull : Bool)
    {name : Nat → String} (hname : ∀ i, Unbroken (name i).toList) (i : Nat) :
    Lays o (membersOf o dropNull ms name i) fun ts => ∀ t ∈ ts, Unbroken t := by
  induction ms generalizing i with
  | nil =>
      rw [membersOf]
      exact .pure (List.forall_mem_nil _)
  | cons m ms ih =>
      obtain ⟨hm, hms⟩ := List.forall_mem_cons.mp h
      rw [membersOf]
      split
      · exact ih hms i
      · exact (hm _ (hname i)).bind fun t ht => (ih hms (i + 1)).bind fun ts hts =>
          .pure (List.forall_mem_cons.mpr ⟨ht, hts⟩)

theorem lays_fieldOf {f : Field Shape} (hname : Unbroken f.name.toList)
    (hcontent : Laid o f.content) (hmembers : ∀ m ∈ f.content.members, Laid o m) :
    Lays o (fieldOf o f) (FieldText o f.name) := by
  have hsuggested := unbroken_suggestedName (o := o) f.name
  have htext : ∀ isOptional type, Unbroken type →
      FieldText o f.name (fieldText o f.name isOptional type) := fun isOptional type htype =>
    ⟨hname, isOptional, type, htype, rfl⟩
  have hplain : ∀ isOptional, Lays o
      (fieldText o f.name isOptional <$> typeOf o f.content (suggestedName o f.name))
      (FieldText o f.name) := fun isOptional =>
    (hcontent _ hsuggested).map (htext isOptional)
  obtain ⟨name, s, isOptional⟩ := f
  cases s with
  | union ms =>
      rw [fieldOf]
      dsimp only
      split
      · refine Lays.map ?_ (htext true)
        split
        · exact (lays_membersOf hmembers true (fun _ => hsuggested) 0).map fun _ =>
            unbroken_alternatives
        · refine (lays_membersOf hmembers true (fun i => ?_) 0).unionOf.named _
          exact (NextName.member (o := o) _ i).unbroken hsuggested
      · exact hplain isOptional
  | _ => exact hplain isOptional

theorem lays_fieldsOf {fs : List (Field Shape)}
    (h : ∀ f ∈ fs, Unbroken f.name.toList ∧ Laid o f.content ∧
      ∀ m ∈ f.content.members, Laid o m) :
    Lays o (fieldsOf o fs) (List.Forall₂ (FieldText o) (fs.map (·.name))) := by
  induction fs with
  | nil =>
      rw [fieldsOf]
      exact .pure .nil
  | cons f fs ih =>
      obtain ⟨⟨hname, hcontent, hmembers⟩, hfs⟩ := List.forall_mem_cons.mp h
      rw [fieldsOf_cons]
      exact (lays_fieldOf hname hcontent hmembers).bind fun t ht => (ih hfs).bind fun ts hts =>
        .pure (.cons ht hts)

/-- What is written for a shape on single lines is laid out. -/
theorem lays_typeOf (s : Shape) : s.Unbroken → Laid o s := by
  induction s using writtenInduction with
  | null =>
      intro _ suggested _
      rw [typeOf]
      exact (Lays.pure (by decide)).named _
  | primitive kind l =>
      intro hs suggested _
      cases hs with
      | primitive h =>
          rw [typeOf]
          exact (Lays.pure (unbroken_primitiveText h)).named _
  | array s ih ihmembers =>
      intro hs suggested hsuggested
      cases hs with
      | array hs =>
          have hitem := (NextName.item (o := o) suggested).unbroken hsuggested
          by_cases hunion : s.isUnion = true
          · obtain ⟨ms, rfl⟩ := Shape.exists_eq_union hunion
            have hmembers : ∀ m ∈ ms, Laid o m := fun m hm =>
              ihmembers m hm (hs.of_mem_members hm)
            rw [typeOf_array_union]
            refine (lays_membersOf hmembers false (fun i => ?_) 0).unionArrayOf.named _
            exact (NextName.member (o := o) _ i).unbroken hitem
          · rw [typeOf_array (Bool.eq_false_iff.mpr hunion)]
            exact ((ih hs _ hitem).map fun _ => unbroken_arrayText).named _
  | object fs ih =>
      intro hs suggested hsuggested
      cases hs with
      | object hnames hcontents =>
          have hfields := lays_fieldsOf (o := o) fun f hf => ⟨hnames f hf,
            (ih f hf).1 (hcontents f hf),
            fun m hm => (ih f hf).2 m hm ((hcontents f hf).of_mem_members hm)⟩
          rw [typeOf]
          split
          · exact (hfields.map fun _ hparts =>
              unbroken_inlineText (unbroken_of_fieldTexts hparts)).named _
          · exact (hfields.extract hsuggested _).named _
  | union ms ih =>
      intro hs suggested hsuggested
      have hmembers : ∀ m ∈ ms, Laid o m := fun m hm => ih m hm (hs.of_mem_members hm)
      rw [typeOf_union]
      refine (lays_membersOf hmembers false (fun i => ?_) 0).unionOf.named _
      exact (NextName.member (o := o) _ i).unbroken hsuggested
  | hole =>
      intro _ suggested _
      rw [typeOf]
      exact .throw _

end Shapes

section Bodies

variable {s : Shape} {rootName : String} {text : List Char} {r : Registry}

/-- All declarations of what is emitted are laid out. -/
theorem filled_of_emit (h : emit o s rootName = .ok (text, r)) (hs : s.Unbroken)
    (hroot : Unbroken rootName.toList) : ∀ d ∈ r.declarations, Filled o d := by
  obtain ⟨e, hrun, rfl⟩ := exists_typeOf_of_emit h
  have hdeclarations : (start o s rootName).declarations = [] := declarations_start
  have hstart : Tidy (start o s rootName) := by
    refine ⟨(ready_start (o := o) s rootName ∅).fit.sound, ?_, ?_⟩
    · rw [hdeclarations]
      exact List.nodup_nil
    · rw [hdeclarations]
      exact List.forall_mem_nil _
  obtain ⟨-, -, added, hadded, hfilled⟩ :=
    lays_typeOf s.sorted hs.sorted rootName hroot ⟨start o s rootName, []⟩ text e hstart hrun
  intro d hd
  rw [hadded, hdeclarations, List.nil_append] at hd
  exact hfilled d hd

/-- What may stand behind the name of a field. -/
def EndsKey (rest : List Char) : Prop :=
  rest.head? = some ':' ∨ rest.head? = some '?'

theorem EndsKey.stops {p : Char → Bool} (hcolon : p ':' = false) (hmark : p '?' = false)
    {rest : List Char} (h : EndsKey rest) : Text.Stops p rest := by
  intro c hc
  rcases h with h | h
  · rw [h] at hc
    exact Option.some.inj hc ▸ hcolon
  · rw [h] at hc
    exact Option.some.inj hc ▸ hmark

/-- A line for a field, from which the name of the field is read behind the indentation. -/
structure LineOf (o : Options) (name : String) (line : List Char) : Prop where
  text : ∃ isOptional type,
    line = List.replicate o.indent ' ' ++ fieldText o name isOptional type ++ [';']
  read : ∃ rest, EndsKey rest ∧ Name.readKey (line.drop o.indent) = some (name.toList, rest)

/-- A part of a body with what stands around it on its line. -/
def indented (o : Options) (part : List Char) : List Char :=
  List.replicate o.indent ' ' ++ part ++ [';']

theorem unbroken_indented {part : List Char} (h : Unbroken part) : Unbroken (indented o part) := by
  have hspaces : Unbroken (List.replicate o.indent ' ') := fun c hc =>
    List.eq_of_mem_replicate hc ▸ (by decide : isLineBreak ' ' = false)
  exact Text.unbroken_append.mpr ⟨Text.unbroken_append.mpr ⟨hspaces, h⟩, by decide⟩

theorem FieldText.lineOf {name : String} {part : List Char} (h : FieldText o name part) :
    LineOf o name (indented o part) := by
  obtain ⟨hname, isOptional, type, -, rfl⟩ := h
  let rest := (if isOptional then ['?'] else []) ++ (": ".toList ++ (type ++ [';']))
  have hends : EndsKey rest := by
    cases isOptional
    · exact .inl rfl
    · exact .inr rfl
  have hdrop : (indented o (fieldText o name isOptional type)).drop o.indent =
      Name.printedKey o.quote.char name.toList ++ rest := by
    rw [indented, List.append_assoc, List.drop_left' List.length_replicate, fieldText,
      List.append_assoc, List.append_assoc, List.append_assoc]
  refine ⟨⟨isOptional, type, rfl⟩, rest, hends, ?_⟩
  rw [hdrop]
  exact (Name.readKey_printedKey o.quote _ (hends.stops (by decide) (by decide))).mpr hname

/-- The lines of a body. -/
theorem splitOnP_bodyText {parts : List (List Char)} (h : ∀ t ∈ parts, Unbroken t) :
    (bodyText o parts).splitOnP isLineBreak =
      if parts = [] then [['\x7b', '\x7d']]
      else ['\x7b'] :: (parts.map (indented o) ++ [['\x7d']]) := by
  cases parts with
  | nil => rfl
  | cons p parts =>
      have hlines : ∀ t ∈ (p :: parts).map (indented o), Unbroken t := by
        intro t ht
        obtain ⟨q, hq, rfl⟩ := List.mem_map.mp ht
        exact unbroken_indented (h q hq)
      have hne : (p :: parts).map (indented o) ≠ [] :=
        mt List.map_eq_nil_iff.mp (List.cons_ne_nil p parts)
      have hbody : bodyText o (p :: parts) = ['\x7b'] ++ '\n' ::
          (Text.separated ['\n'] ((p :: parts).map (indented o)) ++ '\n' :: ['\x7d']) := rfl
      have hbrace : ∀ c : Char, isLineBreak c = false → [c].splitOnP isLineBreak = [[c]] :=
        fun c hc => List.splitOnP_eq_singleton (List.forall_mem_singleton.mpr hc)
      rw [hbody, List.splitOnP_append_cons _ _ (by decide),
        List.splitOnP_append_cons _ _ (by decide), Text.splitOnP_separated hne hlines,
        hbrace _ (by decide), hbrace _ (by decide), if_neg (List.cons_ne_nil _ _)]
      rfl

/-- Field names are read back from what is printed for them if and only if they are on single
lines, different ones are printed differently in any case, and when all that is written is on
single lines, each field of a declaration has a line of its own. -/
theorem fields_read_back (o : Options) (s : Shape) (rootName : String) :
    (∀ name rest, EndsKey rest →
      (Name.readKey (Name.printedKey o.quote.char name ++ rest) = some (name, rest) ↔
        Unbroken name)) ∧
    (∀ name name' rest rest', EndsKey rest → EndsKey rest' →
      Name.printedKey o.quote.char name ++ rest = Name.printedKey o.quote.char name' ++ rest' →
        name = name' ∧ rest = rest') ∧
    ∀ text r, emit o s rootName = .ok (text, r) → s.Unbroken → Unbroken rootName.toList →
      ∀ d ∈ r.declarations, ∃ lines, List.Forall₂ (LineOf o) d.fields lines ∧
        d.body.splitOnP isLineBreak =
          if d.fields = [] then [['\x7b', '\x7d']] else ['\x7b'] :: (lines ++ [['\x7d']]) := by
  refine ⟨fun name rest hrest => ?_, fun name name' rest rest' hrest hrest' h => ?_,
    fun text r h hs hroot d hd => ?_⟩
  · exact Name.readKey_printedKey o.quote name (hrest.stops (by decide) (by decide))
  · exact printedKey_append_inj (hrest.stops (by decide) (by decide))
      (hrest'.stops (by decide) (by decide)) h
  · obtain ⟨parts, hbody, hparts⟩ := filled_of_emit h hs hroot d hd
    have hempty : parts = [] ↔ d.fields = [] := by
      rw [← List.length_eq_zero_iff, ← List.length_eq_zero_iff, hparts.length_eq]
    refine ⟨parts.map (indented o), ?_, ?_⟩
    · exact List.forall₂_map_right_iff.mpr (hparts.imp fun _ _ => FieldText.lineOf)
    · rw [hbody, splitOnP_bodyText (unbroken_of_fieldTexts hparts), if_congr hempty rfl rfl]

/-- A field with a line feed at its end is taken for the one without. -/
theorem line_feed_lost :
    Name.readKey (Name.printedKey QuoteStyle.single.char "name\n".toList ++ ": string".toList) =
        some ("name".toList, "\n: string".toList) ∧
      Name.readKey (Name.printedKey QuoteStyle.single.char "name".toList ++ ": string".toList) =
        some ("name".toList, ": string".toList) :=
  ⟨rfl, rfl⟩

/-- Fields with names that need quotes, one of them a reserved word. -/
def awkward : Sample :=
  .record [("it's", .scalar (.str "a\nb")), ("a\\b", .record []), ("", .null)]

theorem unbroken_awkward : (awkward.outline 0).Unbroken := by
  have hshape : awkward.outline 0 = .object [⟨"it's", .primitive .string none, false⟩,
      ⟨"a\\b", .object [], false⟩, ⟨"", .null, false⟩] := rfl
  rw [hshape]
  refine .object (by decide) fun f hf => ?_
  simp only [List.mem_cons, List.not_mem_nil, or_false] at hf
  rcases hf with rfl | rfl | rfl
  · exact .primitive fun t ht => by cases ht
  · exact .object (List.forall_mem_nil _) (List.forall_mem_nil _)
  · exact .null

theorem fields_read_back_awkward :
    EndsKey ": string".toList ∧ Unbroken "it's".toList ∧
      Name.readKey (Name.printedKey QuoteStyle.double.char "it's".toList ++ ": string".toList) =
        some ("it's".toList, ": string".toList) ∧
      (awkward.outline 0).Unbroken ∧ Unbroken "rootType".toList ∧
      ∃ text r d, emit { quote := .double } (awkward.outline 0) "rootType" = .ok (text, r) ∧
        d ∈ r.declarations ∧
          ∃ lines, List.Forall₂ (LineOf { quote := .double }) d.fields lines := by
  obtain ⟨hread, -, hlines⟩ :=
    fields_read_back { quote := .double } (awkward.outline 0) "rootType"
  obtain ⟨e, hrun⟩ := exists_run_outline { quote := .double } 0 awkward "rootType"
  have hemit := emit_of_write (hrun.write_eq (Sample.regular_outline 0 awkward))
  obtain ⟨-, -, d, others, hdeclarations, -⟩ := root_of_emit hemit rfl
  have hd : d ∈ e.registry.declarations := hdeclarations ▸ List.mem_cons_self
  obtain ⟨lines, hlineOf, -⟩ := hlines _ _ hemit unbroken_awkward (by decide) d hd
  exact ⟨.inl rfl, by decide, (hread _ _ (.inl rfl)).mpr (by decide), unbroken_awkward, by decide,
    _, _, d, hemit, hd, lines, hlineOf⟩

end Bodies

end Emission

end TypeSketch
