import TypeSketch.Proofs.Shape.Within

/-!
# Stateless rendering

`render o σ s` writes a shape without a registry: an object with a declaration of its own is its
name under `σ`, and `body o σ fs` is what such a declaration says.  Main statement:
`render_congr`, shapes that are the same are written the same, under names that agree on the
declared objects that occur.
-/

namespace TypeSketch.Emission

open Shape (Within Regular)

/-- The alternatives of an item type, in parentheses where there are several. -/
def itemText (texts : List (List Char)) : List Char :=
  if 1 < texts.length then '(' :: (alternatives texts ++ [')']) else alternatives texts

/-- Whether null in a field of this content is written as optional. -/
def dropsNull (o : Options) : Shape → Bool
  | .union ms => o.nullAsOptional && ms.any Shape.isNull
  | _ => false

mutual

/-- The texts between the bars of a type expression; `dropNull` leaves out the null members of a
union. -/
def texts (o : Options) (σ : Key → Option String) (dropNull : Bool) : Shape → List (List Char)
  | .null => ["null".toList]
  | .primitive kind l => [primitiveText o kind l]
  | .array s => [arrayText (itemText (texts o σ false s))]
  | .object fs =>
      if isInline o fs then [inlineText ((sortFields (linesOf o σ fs)).map (·.content))]
      else [((σ (Shape.object fs).identity).getD "").toList]
  | .union ms => arrangeTexts (memberTexts o σ dropNull ms)
  | .hole => []

def memberTexts (o : Options) (σ : Key → Option String) (dropNull : Bool) :
    List Shape → List (List Char)
  | [] => []
  | s :: rest =>
      if dropNull && s.isNull then memberTexts o σ dropNull rest
      else alternatives (texts o σ false s) :: memberTexts o σ dropNull rest

/-- What is written for each field. -/
def linesOf (o : Options) (σ : Key → Option String) : List (Field Shape) → List (Field (List Char))
  | [] => []
  | ⟨name, s, isOptional⟩ :: rest =>
      ⟨name, fieldText o name (isOptional || dropsNull o s)
        (alternatives (texts o σ (dropsNull o s) s)), isOptional⟩ :: linesOf o σ rest

end

/-- A shape as a type expression. -/
def render (o : Options) (σ : Key → Option String) (s : Shape) : List Char :=
  alternatives (texts o σ false s)

/-- The texts of fields in the order of their names. -/
def lines (o : Options) (σ : Key → Option String) (fs : List (Field Shape)) : List (List Char) :=
  (sortFields (linesOf o σ fs)).map (·.content)

/-- The body of the declaration of an object. -/
def body (o : Options) (σ : Key → Option String) (fs : List (Field Shape)) : List Char :=
  bodyText o (lines o σ fs)

section Equations

variable {o : Options} {σ : Key → Option String}

@[simp]
theorem alternatives_singleton (t : List Char) : alternatives [t] = t :=
  List.append_nil t

@[simp]
theorem itemText_singleton (t : List Char) : itemText [t] = t := by
  rw [itemText, List.length_singleton, if_neg (Nat.lt_irrefl 1), alternatives_singleton]

@[simp]
theorem render_null : render o σ .null = "null".toList :=
  alternatives_singleton _

@[simp]
theorem render_primitive (kind : Kind) (l : Option Literal) :
    render o σ (.primitive kind l) = primitiveText o kind l :=
  alternatives_singleton _

theorem render_array (s : Shape) :
    render o σ (.array s) = arrayText (itemText (texts o σ false s)) :=
  alternatives_singleton _

theorem render_union (ms : List Shape) :
    render o σ (.union ms) = alternatives (arrangeTexts (memberTexts o σ false ms)) := rfl

theorem render_inline {fs : List (Field Shape)} (h : isInline o fs = true) :
    render o σ (.object fs) = inlineText (lines o σ fs) := by
  rw [render, texts, if_pos h, alternatives_singleton, lines]

theorem render_declared {fs : List (Field Shape)} (h : isInline o fs = false) :
    render o σ (.object fs) = ((σ (Shape.object fs).identity).getD "").toList := by
  rw [render, texts, if_neg (Bool.eq_false_iff.mp h), alternatives_singleton]

theorem texts_of_not_union {s : Shape} (hs : s.Regular) (hunion : s.isUnion = false)
    (dropNull : Bool) : texts o σ dropNull s = [render o σ s] := by
  cases hs with
  | null => rw [texts, render_null]
  | primitive => rw [texts, render_primitive]
  | array => rw [texts, render_array]
  | @object fs =>
      cases h : isInline o fs with
      | true => rw [render_inline h, texts, if_pos h, lines]
      | false => rw [render_declared h, texts, if_neg (Bool.eq_false_iff.mp h)]
  | union => cases hunion

theorem memberTexts_eq_map (dropNull : Bool) (ms : List Shape) :
    memberTexts o σ dropNull ms =
      (ms.filter fun m => !(dropNull && m.isNull)).map (render o σ) := by
  induction ms with
  | nil => rw [memberTexts, List.filter_nil, List.map_nil]
  | cons m ms ih =>
      rw [memberTexts]
      cases h : dropNull && m.isNull with
      | true => rw [if_pos rfl, ih, List.filter_cons_of_neg (by simp [h])]
      | false =>
          rw [if_neg Bool.false_ne_true, ih, List.filter_cons_of_pos (by simp [h]), List.map_cons,
            render]

/-- What is written for a field, under its name. -/
def lineOf (o : Options) (σ : Key → Option String) (f : Field Shape) : Field (List Char) :=
  ⟨f.name, fieldText o f.name (f.isOptional || dropsNull o f.content)
    (alternatives (texts o σ (dropsNull o f.content) f.content)), f.isOptional⟩

theorem lineOf_name (f : Field Shape) : (lineOf o σ f).name = f.name := rfl

theorem linesOf_eq_map (fs : List (Field Shape)) : linesOf o σ fs = fs.map (lineOf o σ) := by
  induction fs with
  | nil => rw [linesOf, List.map_nil]
  | cons f fs ih => rw [linesOf, ih, List.map_cons, lineOf]

end Equations

section Occurrences

variable {o : Options}

/-- The objects with declarations of their own that occur in several shapes. -/
def occurring (o : Options) (shapes : List Shape) : Set (List (Field Shape)) :=
  {fs | isInline o fs = false ∧ ∃ s ∈ shapes, Within (.object fs) s}

theorem mem_occurring {s : Shape} {fs : List (Field Shape)} :
    fs ∈ occurring o [s] ↔ isInline o fs = false ∧ Within (.object fs) s := by
  simp [occurring]

theorem occurring_subset {s : Shape} {shapes : List Shape} (hs : s ∈ shapes) :
    occurring o [s] ⊆ occurring o shapes := by
  intro fs hfs
  obtain ⟨hdeclared, h⟩ := mem_occurring.mp hfs
  exact ⟨hdeclared, s, hs, h⟩

@[simp]
theorem occurring_nil : occurring o [] = ∅ := by
  ext fs
  simp [occurring]

theorem occurring_cons (s : Shape) (rest : List Shape) :
    occurring o (s :: rest) = occurring o [s] ∪ occurring o rest := by
  ext fs
  simp [occurring, and_or_left]

@[simp]
theorem occurring_null : occurring o [.null] = ∅ := by
  ext fs
  rw [mem_occurring]
  exact ⟨fun ⟨_, h⟩ => (by cases h), fun h => h.elim⟩

@[simp]
theorem occurring_primitive (kind : Kind) (l : Option Literal) :
    occurring o [.primitive kind l] = ∅ := by
  ext fs
  rw [mem_occurring]
  exact ⟨fun ⟨_, h⟩ => (by cases h), fun h => h.elim⟩

@[simp]
theorem occurring_array (s : Shape) : occurring o [.array s] = occurring o [s] := by
  ext fs
  rw [mem_occurring, mem_occurring]
  constructor
  · rintro ⟨hdeclared, h⟩
    cases h with
    | item h => exact ⟨hdeclared, h⟩
  · rintro ⟨hdeclared, h⟩
    exact ⟨hdeclared, .item h⟩

@[simp]
theorem occurring_union (ms : List Shape) : occurring o [.union ms] = occurring o ms := by
  ext fs
  rw [mem_occurring]
  constructor
  · rintro ⟨hdeclared, h⟩
    cases h with
    | member hm h => exact ⟨hdeclared, _, hm, h⟩
  · rintro ⟨hdeclared, m, hm, h⟩
    exact ⟨hdeclared, .member hm h⟩

theorem mem_occurring_object {fs gs : List (Field Shape)} :
    gs ∈ occurring o [.object fs] ↔
      (isInline o fs = false ∧ gs = fs) ∨ gs ∈ occurring o (fs.map (·.content)) := by
  rw [mem_occurring]
  constructor
  · rintro ⟨hdeclared, h⟩
    cases h with
    | refl => exact .inl ⟨hdeclared, rfl⟩
    | content hf h => exact .inr ⟨hdeclared, _, List.mem_map_of_mem hf, h⟩
  · rintro (⟨hdeclared, rfl⟩ | ⟨hdeclared, s, hs, h⟩)
    · exact ⟨hdeclared, .refl _⟩
    · obtain ⟨f, hf, rfl⟩ := List.mem_map.mp hs
      exact ⟨hdeclared, .content hf h⟩

theorem occurring_inline {fs : List (Field Shape)} (h : isInline o fs = true) :
    occurring o [.object fs] = occurring o (fs.map (·.content)) := by
  ext gs
  rw [mem_occurring_object, h]
  exact or_iff_right fun hself => Bool.noConfusion hself.1

/-- Two namings agree on some objects. -/
def Agree (σ τ : Key → Option String) (objects : Set (List (Field Shape))) : Prop :=
  ∀ fs ∈ objects, σ (Shape.object fs).identity = τ (Shape.object fs).identity

theorem Agree.mono {σ τ : Key → Option String} {D E : Set (List (Field Shape))}
    (h : Agree σ τ E) (hsub : D ⊆ E) : Agree σ τ D :=
  fun fs hfs => h fs (hsub hfs)

end Occurrences

section Congruence

variable {o : Options} {σ τ : Key → Option String}

theorem arrangeTexts_congr {xs ys : List (List Char)} (h : ∀ t, t ∈ xs ↔ t ∈ ys) :
    arrangeTexts xs = arrangeTexts ys :=
  mergeSort_eq_of_perm Text.le_trans Text.le_total (perm_distinctOn_id h)
    fun _ _ _ _ => Text.le_antisymm

theorem arrangeTexts_ne_nil {xs : List (List Char)} (h : xs ≠ []) : arrangeTexts xs ≠ [] := by
  obtain ⟨t, ht⟩ := List.exists_mem_of_ne_nil xs h
  have hmem : t ∈ arrangeTexts xs := List.mem_mergeSort.mpr (mem_distinctOn_id.mpr ht)
  exact List.ne_nil_of_mem hmem

theorem primitiveText_congr {kind : Kind} {l m : Option Literal}
    (hl : ∀ x ∈ l, x.kind = kind) (hm : ∀ x ∈ m, x.kind = kind)
    (h : l.map (Literal.canonical kind) = m.map (Literal.canonical kind)) :
    primitiveText o kind l = primitiveText o kind m := by
  cases l with
  | none =>
      cases m with
      | none => rfl
      | some m => cases h
  | some l =>
      cases m with
      | none => cases h
      | some m =>
          -- a token is its own representative, so equal literals have one token
          have htoken : ∀ {x : Literal}, x.kind = kind → x.token kind = x.canonical kind :=
            fun {x} hx => by
              rw [← Literal.canonical_token, (Literal.isToken_token hx).canonical]
          have heq : l.token kind = m.token kind := by
            rw [htoken (hl l rfl), htoken (hm m rfl)]
            exact Option.some.inj h
          cases kind with
          | string =>
              have hstring : ∀ {x : Literal}, x.kind = .string → x.token .string = x := by
                intro x hx
                cases x with
                | str s => rfl
                | _ => cases hx
              rw [hstring (hl l rfl), hstring (hm m rfl)] at heq
              rw [heq]
          | number => simp only [primitiveText, heq]
          | boolean => simp only [primitiveText, heq]

theorem any_isNull_iff {ms : List Shape} :
    ms.any Shape.isNull = true ↔ Key.null ∈ Shape.classes ms := by
  rw [List.any_eq_true, Shape.mem_classes]
  simp only [Shape.isNull_iff]

theorem dropsNull_congr {s r : Shape} (hs : s.Regular) (hr : r.Regular)
    (h : s.identity = r.identity) : dropsNull o s = dropsNull o r := by
  cases s with
  | union ms =>
      cases r with
      | union ns =>
          have hclasses := (Shape.identity_union_eq_iff hs hr).mp h
          have hany : ms.any Shape.isNull = ns.any Shape.isNull := by
            rw [Bool.eq_iff_iff, any_isNull_iff, any_isNull_iff, hclasses]
          rw [dropsNull, dropsNull, hany]
      | _ => cases h
  | _ =>
      cases r with
      | union ns => cases h
      | _ => rfl

theorem isInline_congr {fs gs : List (Field Shape)}
    (h : (Shape.object fs).identity = (Shape.object gs).identity) :
    isInline o fs = isInline o gs := by
  have hlength : fs.length = gs.length := by
    have hfields := congrArg List.length (Key.object.inj
      ((Shape.identity_object fs).symm.trans (h.trans (Shape.identity_object gs))))
    rwa [sortFields, sortFields, List.length_mergeSort, List.length_mergeSort, List.length_map,
      List.length_map] at hfields
  have hscalar : ∀ {ls ls' : List (Field Shape)},
      (Shape.object ls).identity = (Shape.object ls').identity →
        (∀ f ∈ ls, f.content.isScalar = true) → ∀ g ∈ ls', g.content.isScalar = true := by
    intro ls ls' heq hall g hg
    obtain ⟨f, hf, hcontent⟩ := Shape.exists_content_of_identity_eq heq.symm hg
    rw [Shape.isScalar_of_identity_eq hcontent]
    exact hall f hf
  have hall : fs.all (·.content.isScalar) = gs.all (·.content.isScalar) := by
    rw [Bool.eq_iff_iff, List.all_eq_true, List.all_eq_true]
    exact ⟨hscalar h, hscalar h.symm⟩
  rw [isInline, isInline, hlength, hall]

theorem lineOf_congr {f g : Field Shape} (h : f.map Shape.identity = g.map Shape.identity)
    (hf : f.content.Regular) (hg : g.content.Regular)
    (htexts : ∀ dropNull, texts o σ dropNull f.content = texts o τ dropNull g.content) :
    lineOf o σ f = lineOf o τ g := by
  obtain ⟨name, s, isOptional⟩ := f
  obtain ⟨name', r, isOptional'⟩ := g
  simp only [Field.map, Field.mk.injEq] at h
  obtain ⟨rfl, hidentity, rfl⟩ := h
  simp only [lineOf, dropsNull_congr hf hg hidentity, htexts]

theorem lines_congr {fs gs : List (Field Shape)} (hfs : (Shape.object fs).Regular)
    (hgs : (Shape.object gs).Regular) (h : (Shape.object fs).identity = (Shape.object gs).identity)
    (hcontents : ∀ f ∈ fs, ∀ g ∈ gs, f.content.identity = g.content.identity →
      ∀ dropNull, texts o σ dropNull f.content = texts o τ dropNull g.content) :
    lines o σ fs = lines o τ gs := by
  have hnames : ∀ {ls : List (Field Shape)} {υ}, (Shape.object ls).Regular →
      ((ls.map (lineOf o υ)).map (·.name)).Nodup := by
    intro ls υ hls
    rw [List.map_map]
    exact hls.names_nodup
  rw [lines, lines, linesOf_eq_map, linesOf_eq_map,
    (sortFields_eq_iff (hnames hfs) (hnames hgs)).mpr]
  intro name
  -- both objects have the same under the name, or both have nothing
  have hentry := (Shape.identity_object_eq_iff hfs.names_nodup hgs.names_nodup).mp h name
  rw [entry_map name lineOf_name, entry_map name lineOf_name]
  cases hf : entry name fs with
  | none =>
      rw [hf, Option.map_none, eq_comm, Option.map_eq_none_iff] at hentry
      rw [hentry, Option.map_none, Option.map_none]
  | some f =>
      rw [hf, Option.map_some, eq_comm, Option.map_eq_some_iff] at hentry
      obtain ⟨g, hg, hgf⟩ := hentry
      have hfmem := (mem_of_entry_eq_some hf).1
      have hgmem := (mem_of_entry_eq_some hg).1
      have hcontent : f.content.identity = g.content.identity :=
        congrArg (fun x : Field Key => x.content) hgf.symm
      rw [hg, Option.map_some, Option.map_some,
        lineOf_congr hgf.symm (hfs.content hfmem) (hgs.content hgmem)
          (hcontents f hfmem g hgmem hcontent)]

theorem mem_memberTexts {dropNull : Bool} {ms : List Shape} {t : List Char} :
    t ∈ memberTexts o σ dropNull ms ↔
      ∃ m ∈ ms, (dropNull && m.isNull) = false ∧ render o σ m = t := by
  rw [memberTexts_eq_map]
  simp only [List.mem_map, List.mem_filter, Bool.not_eq_eq_eq_not, Bool.not_true, and_assoc]

theorem arrangeTexts_memberTexts_congr {ms ns : List Shape}
    (hclasses : Shape.classes ms = Shape.classes ns)
    (hmembers : ∀ m ∈ ms, ∀ n ∈ ns, m.identity = n.identity → render o σ m = render o τ n)
    (dropNull : Bool) :
    arrangeTexts (memberTexts o σ dropNull ms) = arrangeTexts (memberTexts o τ dropNull ns) := by
  apply arrangeTexts_congr
  intro t
  show t ∈ memberTexts o σ dropNull ms ↔ t ∈ memberTexts o τ dropNull ns
  rw [mem_memberTexts, mem_memberTexts]
  constructor
  · rintro ⟨m, hm, hkept, rfl⟩
    obtain ⟨n, hn, hnm⟩ := Shape.mem_classes.mp (hclasses ▸ Shape.identity_mem_classes hm)
    exact ⟨n, hn, Shape.isNull_of_identity_eq hnm ▸ hkept, (hmembers m hm n hn hnm.symm).symm⟩
  · rintro ⟨n, hn, hkept, rfl⟩
    obtain ⟨m, hm, hmn⟩ := Shape.mem_classes.mp (hclasses ▸ Shape.identity_mem_classes hn)
    exact ⟨m, hm, Shape.isNull_of_identity_eq hmn ▸ hkept, hmembers m hm n hn hmn⟩

/-- The alternatives of shapes that are the same. -/
theorem texts_congr {s : Shape} (hs : s.Regular) : ∀ {r : Shape}, r.Regular →
    s.identity = r.identity → Agree σ τ (occurring o [s]) →
      ∀ dropNull, texts o σ dropNull s = texts o τ dropNull r := by
  -- each form only has its own kind of key; what it holds is the same by induction
  induction hs with
  | null =>
      intro r hr h _ dropNull
      cases hr with
      | null => rw [texts, texts]
      | _ => cases h
  | @primitive kind l hl =>
      intro r hr h _ dropNull
      cases hr with
      | @primitive kind' m hm =>
          rw [Shape.identity_primitive, Shape.identity_primitive, Key.primitive.injEq] at h
          obtain ⟨rfl, h⟩ := h
          rw [texts, texts, primitiveText_congr hl hm h]
      | _ => cases h
  | array hs ih =>
      intro r hr h hagree dropNull
      cases hr with
      | array hr =>
          rw [occurring_array] at hagree
          have hitem := ih hr (Key.array.inj h) hagree false
          rw [texts, texts, hitem]
      | _ => cases h
  | @object fs hnames hfs ih =>
      intro r hr h hagree dropNull
      cases hr with
      | @object gs hnames' hgs =>
          have hlines : lines o σ fs = lines o τ gs := by
            apply lines_congr (.object hnames hfs) (.object hnames' hgs) h
            intro f hf g hg hcontent
            apply ih f hf (hgs g hg) hcontent
            intro ls hls
            have hcontents := occurring_subset (List.mem_map_of_mem hf) hls
            exact hagree ls (mem_occurring_object.mpr (.inr hcontents))
          rw [texts, texts, ← isInline_congr h, ← lines, ← lines, hlines]
          cases hdeclared : isInline o fs with
          | true => rw [if_pos rfl, if_pos rfl]
          | false =>
              -- the one place where the names matter
              rw [if_neg Bool.false_ne_true, if_neg Bool.false_ne_true,
                hagree fs (mem_occurring_object.mpr (.inl ⟨hdeclared, rfl⟩)), h]
      | _ => cases h
  | @union ms hne hflat hms ih =>
      intro r hr h hagree dropNull
      cases hr with
      | @union ns hne' hflat' hns =>
          have hclasses := (Shape.identity_union_eq_iff (.union hne hflat hms)
            (.union hne' hflat' hns)).mp h
          rw [texts, texts]
          apply arrangeTexts_memberTexts_congr hclasses
          intro m hm n hn heq
          rw [occurring_union] at hagree
          have hmember := hagree.mono (occurring_subset hm)
          have htexts := ih m hm (hns n hn) heq hmember false
          rw [render, render, htexts]
      | _ => cases h

/-- Shapes that are the same are written the same, under names that agree. -/
theorem render_congr {s r : Shape} (hs : s.Regular) (hr : r.Regular)
    (h : s.identity = r.identity) (hagree : Agree σ τ (occurring o [s])) : render o σ s = render o τ r := by
  rw [render, render, texts_congr hs hr h hagree]

/-- Objects that are the same have declarations of the same body. -/
theorem body_congr {fs gs : List (Field Shape)} (hfs : (Shape.object fs).Regular)
    (hgs : (Shape.object gs).Regular) (h : (Shape.object fs).identity = (Shape.object gs).identity)
    (hagree : Agree σ τ (occurring o (fs.map (·.content)))) : body o σ fs = body o τ gs := by
  rw [body, body, lines_congr hfs hgs h]
  intro f hf g hg hcontent
  apply texts_congr (hfs.content hf) (hgs.content hg) hcontent
  exact hagree.mono (occurring_subset (List.mem_map_of_mem hf))

end Congruence

end TypeSketch.Emission
