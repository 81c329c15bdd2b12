import TypeSketch.Proofs.Declaration.Words

/-!
# Type expressions can be read back

The text of a type expression says which structure it is of, whatever stands behind it, as long as
that does not go on with the expression.  The texts of arrays begin with those of their items, so
items are told apart together with the brackets behind them.  Main statements:

* `told`: the texts of items and of members of unions are told apart;
* `render_append_inj`: the text of a type expression says which structure it is of;
* `identity_eq_of_body_eq`: objects with the same body are the same.
-/

namespace TypeSketch.Emission

open Name (Invented isNameChar)
open Shape (Within Regular classes)
open Text (Stops separated separated_append_inj stops_cons stops_nil)

/-- A shape that can be read back from its text: its unions have different members, and its
declared objects invented names. -/
structure Legible (o : Options) (σ : Key → Option String) (s : Shape) : Prop where
  regular : s.Regular
  unequal : ∀ ms, Within (.union ms) s → ∃ m ∈ ms, ∃ n ∈ ms, m.identity ≠ n.identity
  names : ∀ fs ∈ occurring o [s],
    ∃ name, σ (Shape.object fs).identity = some name ∧ Invented name

section Items

variable {o : Options} {σ : Key → Option String} {s r : Shape}

theorem Legible.of_within (h : Legible o σ s) (hr : Within r s) : Legible o σ r where
  regular := h.regular.of_within hr
  unequal ms hms := h.unequal ms (hms.trans hr)
  names := by
    intro fs hfs
    obtain ⟨hdeclared, hwithin⟩ := mem_occurring.mp hfs
    exact h.names fs (mem_occurring.mpr ⟨hdeclared, hwithin.trans hr⟩)

theorem Legible.of_mem_members (h : Legible o σ s) {m : Shape} (hm : m ∈ s.members) :
    Legible o σ m := by
  cases s with
  | union ms => exact h.of_within (.member hm (.refl m))
  | _ => exact List.mem_singleton.mp hm ▸ h

/-- A shape as the item of an array is written: a union of several texts in parentheses. -/
def itemOf (o : Options) (σ : Key → Option String) (s : Shape) : List Char :=
  itemText (texts o σ false s)

theorem itemOf_eq_render (hs : s.Regular) (hunion : s.isUnion = false) :
    itemOf o σ s = render o σ s := by
  rw [itemOf, texts_of_not_union hs hunion, itemText_singleton]

theorem itemOf_array (s : Shape) : itemOf o σ (.array s) = arrayText (itemOf o σ s) := by
  rw [itemOf, texts, itemText_singleton, itemOf]

/-- The alternatives of a shape are the distinct texts of its members. -/
theorem texts_eq_arrangeTexts (hs : s.Regular) :
    texts o σ false s = arrangeTexts (s.members.map (itemOf o σ)) := by
  cases hunion : s.isUnion with
  | false =>
      rw [texts_of_not_union hs hunion, ← itemOf_eq_render hs hunion,
        Shape.members_of_isUnion_eq_false hunion, List.map_singleton, arrangeTexts_singleton]
  | true =>
      obtain ⟨ms, rfl⟩ := Shape.exists_eq_union hunion
      cases hs with
      | union _ hflat hms =>
          have hitems : ms.map (render o σ) = ms.map (itemOf o σ) :=
            List.map_congr_left fun m hm => (itemOf_eq_render (hms m hm) (hflat m hm)).symm
          simp only [texts, memberTexts_eq_map, Bool.false_and, Bool.not_false, List.filter_true,
            hitems]
          rfl

theorem mem_texts (hs : s.Regular) {t : List Char} :
    t ∈ texts o σ false s ↔ ∃ m ∈ s.members, itemOf o σ m = t := by
  rw [texts_eq_arrangeTexts hs, arrangeTexts, Text.sort, List.mem_mergeSort, mem_distinctOn_id,
    List.mem_map]

theorem members_ne_nil (hs : s.Regular) : s.members ≠ [] := by
  cases hs with
  | union hne => exact hne
  | _ => exact List.cons_ne_nil _ _

theorem texts_ne_nil (hs : s.Regular) : texts o σ false s ≠ [] := by
  obtain ⟨m, hm⟩ := List.exists_mem_of_ne_nil _ (members_ne_nil hs)
  exact List.ne_nil_of_mem ((mem_texts hs).mpr ⟨m, hm, rfl⟩)

end Items

section Brackets

/-- The brackets of nested arrays. -/
def brackets : Nat → List Char
  | 0 => []
  | n + 1 => '[' :: ']' :: brackets n

/-- The array of the arrays, and so on. -/
def arrays : Nat → Key → Key
  | 0, k => k
  | n + 1, k => arrays n (.array k)

theorem arrays_injective : ∀ n : Nat, Function.Injective (arrays n)
  | 0 => fun _ _ h => h
  | n + 1 => fun _ _ h => Key.array.inj (arrays_injective n h)

/-- A character that goes on with an item. -/
def continuesItem (c : Char) : Bool :=
  isBare c || c = '['

theorem stops_brackets_append {x : List Char} (hx : Stops continuesItem x) (n : Nat) :
    Stops isBare (brackets n ++ x) := by
  cases n with
  | zero => exact hx.mono fun c hc => by rw [continuesItem, hc, Bool.true_or]
  | succ n => exact stops_cons.mpr (by decide)

theorem brackets_append_inj {x y : List Char} (hx : Stops continuesItem x)
    (hy : Stops continuesItem y) :
    ∀ {n k : Nat}, brackets n ++ x = brackets k ++ y → n = k ∧ x = y
  | 0, 0, h => ⟨rfl, h⟩
  | 0, k + 1, h => by
      have hx' : Stops continuesItem (brackets (k + 1) ++ y) := h ▸ hx
      exact Bool.noConfusion (stops_cons.mp hx')
  | n + 1, 0, h => by
      have hy' : Stops continuesItem (brackets (n + 1) ++ x) := h ▸ hy
      exact Bool.noConfusion (stops_cons.mp hy')
  | n + 1, k + 1, h => by
      obtain ⟨rfl, hrest⟩ := brackets_append_inj hx hy (List.cons.inj (List.cons.inj h).2).2
      exact ⟨rfl, hrest⟩

end Brackets

/-- The text of the shape as an item, with brackets behind it, is told apart from all others. -/
def Told (o : Options) (σ : Key → Option String) (s : Shape) : Prop :=
  ∀ ⦃r : Shape⦄, Legible o σ r → ∀ ⦃n k : Nat⦄ ⦃x y : List Char⦄, Stops continuesItem x →
    Stops continuesItem y →
    itemOf o σ s ++ (brackets n ++ x) = itemOf o σ r ++ (brackets k ++ y) →
    arrays n s.identity = arrays k r.identity ∧ x = y

/-- What follows does not go on with a type expression. -/
structure EndsType (rest : List Char) : Prop where
  stops : Stops continuesItem rest
  noMore : ∀ u, rest ≠ " | ".toList ++ u

section Alternatives

variable {o : Options} {σ : Key → Option String} {s r : Shape}

theorem Told.append_inj (h : Told o σ s) (hr : Legible o σ r) {x y : List Char}
    (hx : Stops continuesItem x) (hy : Stops continuesItem y)
    (heq : itemOf o σ s ++ x = itemOf o σ r ++ y) : s.identity = r.identity ∧ x = y :=
  h hr (n := 0) (k := 0) hx hy heq

theorem Told.item_inj (h : Told o σ s) (hr : Legible o σ r) (heq : itemOf o σ s = itemOf o σ r) :
    s.identity = r.identity :=
  (h.append_inj hr stops_nil stops_nil (congrArg (· ++ []) heq)).1

/-- The alternatives of shapes are told apart when their members are. -/
theorem texts_append_inj (hs : Legible o σ s) (hr : Legible o σ r)
    (h : ∀ m ∈ s.members, Told o σ m) {x y : List Char} (hx : EndsType x) (hy : EndsType y)
    (heq : alternatives (texts o σ false s) ++ x = alternatives (texts o σ false r) ++ y) :
    texts o σ false s = texts o σ false r ∧ x = y := by
  have hentry : ∀ a ∈ texts o σ false s, ∀ b ∈ texts o σ false r, ∀ u v,
      Stops continuesItem u → Stops continuesItem v → id a ++ u = id b ++ v → id a = id b ∧ u = v := by
    intro a ha b hb u v hu hv hab
    obtain ⟨m, hm, rfl⟩ := (mem_texts hs.regular).mp ha
    obtain ⟨n, hn, rfl⟩ := (mem_texts hr.regular).mp hb
    obtain ⟨-, rfl⟩ := (h m hm).append_inj (hr.of_mem_members hn) hu hv hab
    exact ⟨List.append_cancel_right hab, rfl⟩
  have hseparator : ∀ u, Stops continuesItem (" | ".toList ++ u) := fun u =>
    stops_cons.mpr (by decide)
  have hinj := separated_append_inj hseparator hx.stops hy.stops hentry
    (fun b _ u => hx.noMore _) (fun a _ u => hy.noMore _) (texts_ne_nil hs.regular)
    (texts_ne_nil hr.regular)
  simp only [List.map_id] at hinj
  exact hinj heq

/-- A shape is determined by the structures of its members. -/
theorem identity_eq_of_classes_members (hs : Legible o σ s) (hr : Legible o σ r)
    (h : classes s.members = classes r.members) : s.identity = r.identity := by
  -- a union has members of two structures, and any other shape is its only member
  have hmixed : ∀ {s r : Shape}, Legible o σ s → s.isUnion = true → r.isUnion = false →
      classes s.members ≠ classes r.members := by
    intro s r hs hunion hplain heq
    obtain ⟨ms, rfl⟩ := Shape.exists_eq_union hunion
    obtain ⟨m, hm, n, hn, hne⟩ := hs.unequal ms (.refl _)
    rw [Shape.members_of_isUnion_eq_false hplain] at heq
    have hsingle : ∀ {k : Shape}, k ∈ ms → k.identity = r.identity := by
      intro k hk
      have hmem : k.identity ∈ classes [r] := heq ▸ Shape.identity_mem_classes hk
      simpa using hmem
    exact hne ((hsingle hm).trans (hsingle hn).symm)
  cases hsunion : s.isUnion with
  | true =>
      cases hrunion : r.isUnion with
      | true =>
          obtain ⟨ms, rfl⟩ := Shape.exists_eq_union hsunion
          obtain ⟨ns, rfl⟩ := Shape.exists_eq_union hrunion
          exact (Shape.identity_union_eq_iff hs.regular hr.regular).mpr h
      | false => exact absurd h (hmixed hs hsunion hrunion)
  | false =>
      cases hrunion : r.isUnion with
      | true => exact absurd h.symm (hmixed hr hrunion hsunion)
      | false =>
          rw [Shape.members_of_isUnion_eq_false hsunion,
            Shape.members_of_isUnion_eq_false hrunion] at h
          simpa using h

/-- Shapes with the same alternatives are the same. -/
theorem identity_eq_of_texts_eq (hs : Legible o σ s) (hr : Legible o σ r)
    (h : ∀ m ∈ s.members, Told o σ m) (heq : texts o σ false s = texts o σ false r) :
    s.identity = r.identity := by
  apply identity_eq_of_classes_members hs hr
  ext k
  rw [Shape.mem_classes, Shape.mem_classes]
  constructor
  · rintro ⟨m, hm, rfl⟩
    obtain ⟨n, hn, hnm⟩ := (mem_texts hr.regular).mp (heq ▸ (mem_texts hs.regular).mpr ⟨m, hm, rfl⟩)
    exact ⟨n, hn, ((h m hm).item_inj (hr.of_mem_members hn) hnm.symm).symm⟩
  · rintro ⟨n, hn, rfl⟩
    obtain ⟨m, hm, hmn⟩ :=
      (mem_texts hs.regular).mp (heq ▸ (mem_texts hr.regular).mpr ⟨n, hn, rfl⟩)
    exact ⟨m, hm, (h m hm).item_inj (hr.of_mem_members hn) hmn⟩

/-- Type expressions are told apart when the members of what they are of are. -/
theorem type_append_inj (hs : Legible o σ s) (hr : Legible o σ r)
    (h : ∀ m ∈ s.members, Told o σ m) {x y : List Char} (hx : EndsType x) (hy : EndsType y)
    (heq : render o σ s ++ x = render o σ r ++ y) : s.identity = r.identity ∧ x = y := by
  obtain ⟨htexts, hrest⟩ := texts_append_inj hs hr h hx hy heq
  exact ⟨identity_eq_of_texts_eq hs hr h htexts, hrest⟩

end Alternatives

section Fields

variable {o : Options} {σ : Key → Option String} (hnull : o.nullAsOptional = false)

/-- What is written for a field. -/
def lineText (o : Options) (σ : Key → Option String) (f : Field Shape) : List Char :=
  (lineOf o σ f).content

theorem lines_eq_map (fs : List (Field Shape)) :
    lines o σ fs = (sortFields fs).map (lineText o σ) := by
  rw [lines, linesOf_eq_map, sortFields_map lineOf_name, List.map_map]
  rfl

theorem exists_lineText_eq_cons (f : Field Shape) :
    ∃ c rest, lineText o σ f = c :: rest ∧ (isNameChar c = true ∨ c = o.quote.char) := by
  obtain ⟨c, rest, hkey, hc⟩ := exists_printedKey_eq_cons o.quote f.name.toList
  rw [lineText, lineOf, fieldText, hkey]
  exact ⟨c, _, rfl, hc⟩

include hnull

theorem lineText_eq (f : Field Shape) :
    lineText o σ f = Name.printedKey o.quote.char f.name.toList ++
      ((if f.isOptional then ['?'] else []) ++ (": ".toList ++ render o σ f.content)) := by
  have hdrops : dropsNull o f.content = false := by
    cases f.content with
    | union ms => rw [dropsNull, hnull, Bool.false_and]
    | _ => rfl
  rw [lineText, lineOf, fieldText, hdrops, Bool.or_false, render, List.append_assoc,
    List.append_assoc]

/-- Fields are told apart by their names, by the mark of what is optional, and by their types. -/
theorem lineText_append_inj {f g : Field Shape} (hf : Legible o σ f.content)
    (hg : Legible o σ g.content) (h : ∀ m ∈ f.content.members, Told o σ m) {x y : List Char}
    (hx : EndsType x) (hy : EndsType y) (heq : lineText o σ f ++ x = lineText o σ g ++ y) :
    f.map Shape.identity = g.map Shape.identity ∧ x = y := by
  obtain ⟨name, s, isOptional⟩ := f
  obtain ⟨name', s', isOptional'⟩ := g
  have hstops : ∀ (b : Bool) (u : List Char),
      Stops isNameChar ((if b then ['?'] else []) ++ (": ".toList ++ u)) := by
    intro b u
    cases b <;> exact stops_cons.mpr (by decide)
  rw [lineText_eq hnull, lineText_eq hnull] at heq
  simp only [List.append_assoc] at heq
  obtain ⟨hname, hrest⟩ := printedKey_append_inj (hstops _ _) (hstops _ _) heq
  obtain rfl := String.toList_inj.mp hname
  have hmark : isOptional = isOptional' ∧ render o σ s ++ x = render o σ s' ++ y := by
    cases isOptional <;> cases isOptional' <;> simp at hrest ⊢ <;> exact hrest
  obtain ⟨rfl, htype⟩ := hmark
  obtain ⟨hidentity, hxy⟩ := type_append_inj hf hg h hx hy htype
  exact ⟨by rw [Field.map, Field.map, hidentity], hxy⟩

end Fields

section Objects

variable {o : Options} {σ : Key → Option String} {fs gs : List (Field Shape)}

/-- The lines of the fields of two objects are told apart in front of what does not go on with a
type. -/
def LinesApart (o : Options) (σ : Key → Option String) (fs gs : List (Field Shape)) : Prop :=
  ∀ f ∈ fs, ∀ g ∈ gs, ∀ x y, EndsType x → EndsType y →
    lineText o σ f ++ x = lineText o σ g ++ y → f.map Shape.identity = g.map Shape.identity ∧ x = y

theorem LinesApart.sorted (h : LinesApart o σ fs gs) :
    LinesApart o σ (sortFields fs) (sortFields gs) :=
  fun f hf g hg => h f (mem_sortFields.mp hf) g (mem_sortFields.mp hg)

theorem identity_object_eq_of_sortFields
    (h : (sortFields fs).map (Field.map Shape.identity) =
      (sortFields gs).map (Field.map Shape.identity)) :
    (Shape.object fs).identity = (Shape.object gs).identity := by
  rw [Shape.identity_object, Shape.identity_object, sortFields_map (Field.map_name _),
    sortFields_map (Field.map_name _), h]

theorem endsType_of_ne {c : Char} {rest : List Char} (hc : continuesItem c = false)
    (hne : c ≠ ' ') : EndsType (c :: rest) :=
  ⟨stops_cons.mpr hc, fun _ h => hne (List.cons.inj h).1⟩

theorem endsType_brace (x : List Char) : EndsType (" \x7d".toList ++ x) where
  stops := stops_cons.mpr (by decide)
  noMore u h := by
    have hsecond := (List.cons.inj (List.cons.inj h).2).1
    exact absurd hsecond (by decide)

theorem inlineText_cons_append (t : List Char) (ts : List (List Char)) (x : List Char) :
    inlineText (t :: ts) ++ x =
      "\x7b ".toList ++ (separated "; ".toList (t :: ts) ++ (" \x7d".toList ++ x)) := by
  show "\x7b ".toList ++ separated "; ".toList (t :: ts) ++ " \x7d".toList ++ x = _
  rw [List.append_assoc, List.append_assoc]

/-- Objects that are written in place are told apart. -/
theorem inlineText_append_inj (h : LinesApart o σ fs gs) {x y : List Char}
    (heq : inlineText (lines o σ fs) ++ x = inlineText (lines o σ gs) ++ y) :
    (Shape.object fs).identity = (Shape.object gs).identity ∧ x = y := by
  have hsorted := h.sorted
  suffices hfields : (sortFields fs).map (Field.map Shape.identity) =
      (sortFields gs).map (Field.map Shape.identity) ∧ x = y from
    ⟨identity_object_eq_of_sortFields hfields.1, hfields.2⟩
  rw [lines_eq_map, lines_eq_map] at heq
  generalize sortFields fs = fs' at heq hsorted ⊢
  generalize sortFields gs = gs' at heq hsorted ⊢
  cases fs' with
  | nil =>
      cases gs' with
      | nil => exact ⟨rfl, List.append_cancel_left heq⟩
      | cons g gs' => simp [inlineText] at heq
  | cons f fs' =>
      cases gs' with
      | nil => simp [inlineText] at heq
      | cons g gs' =>
          have hseparator : ∀ u, EndsType ("; ".toList ++ u) := fun u =>
            endsType_of_ne (by decide) (by decide)
          have hend : ∀ x u v : List Char, " \x7d".toList ++ x ≠ "; ".toList ++ (u ++ v) :=
            fun x u v hu => absurd (List.cons.inj hu).1 (by decide)
          rw [List.map_cons, List.map_cons, inlineText_cons_append, inlineText_cons_append,
            ← List.map_cons, ← List.map_cons] at heq
          obtain ⟨hfields, hrest⟩ := separated_append_inj hseparator (endsType_brace x)
            (endsType_brace y) hsorted (fun _ _ => hend x _) (fun _ _ => hend y _)
            (List.cons_ne_nil _ _) (List.cons_ne_nil _ _) (List.append_cancel_left heq)
          exact ⟨hfields, List.append_cancel_left hrest⟩

/-- A line of the body of a declaration. -/
def bodyLine (o : Options) (σ : Key → Option String) (f : Field Shape) : List Char :=
  List.replicate o.indent ' ' ++ lineText o σ f ++ [';']

/-- A line does not start with the brace that ends the body. -/
theorem bodyLine_append_ne (f : Field Shape) (u v : List Char) :
    '\x7d' :: u ≠ bodyLine o σ f ++ v := by
  obtain ⟨c, rest, hline, hc⟩ := exists_lineText_eq_cons (o := o) (σ := σ) f
  rw [bodyLine, hline]
  intro h
  cases hindent : o.indent with
  | zero =>
      rw [hindent] at h
      have hbrace : '\x7d' = c := (List.cons.inj h).1
      rw [← hbrace] at hc
      rcases hc with hc | hc
      · exact Bool.noConfusion hc
      · cases hquote : o.quote <;> rw [hquote] at hc <;> exact absurd hc (by decide)
  | succ n =>
      rw [hindent, List.replicate_succ] at h
      exact absurd (List.cons.inj h).1 (by decide)

/-- The lines of bodies are told apart, whatever follows. -/
theorem LinesApart.bodyLine_append_inj (h : LinesApart o σ fs gs) {f g : Field Shape} (hf : f ∈ fs)
    (hg : g ∈ gs) {x y : List Char} (heq : bodyLine o σ f ++ x = bodyLine o σ g ++ y) :
    f.map Shape.identity = g.map Shape.identity ∧ x = y := by
  rw [bodyLine, bodyLine] at heq
  simp only [List.append_assoc] at heq
  obtain ⟨hfield, hrest⟩ := h f hf g hg _ _ (endsType_of_ne (by decide) (by decide))
    (endsType_of_ne (by decide) (by decide)) (List.append_cancel_left heq)
  exact ⟨hfield, (List.cons.inj hrest).2⟩

theorem bodyText_cons (f : Field Shape) (fs : List (Field Shape)) :
    bodyText o ((f :: fs).map (lineText o σ)) =
      "\x7b\n".toList ++
        (separated ['\n'] ((f :: fs).map (bodyLine o σ)) ++ "\n\x7d".toList) := by
  show "\x7b\n".toList ++ separated ['\n'] (((f :: fs).map (lineText o σ)).map fun p =>
    List.replicate o.indent ' ' ++ p ++ [';']) ++ "\n\x7d".toList = _
  rw [List.map_map, List.append_assoc]
  rfl

/-- Bodies whose lines are told apart are those of the same object. -/
theorem LinesApart.identity_eq (h : LinesApart o σ fs gs)
    (heq : body o σ fs = body o σ gs) :
    (Shape.object fs).identity = (Shape.object gs).identity := by
  have hsorted := h.sorted
  apply identity_object_eq_of_sortFields
  rw [body, body, lines_eq_map, lines_eq_map] at heq
  generalize sortFields fs = fs' at heq hsorted ⊢
  generalize sortFields gs = gs' at heq hsorted ⊢
  cases fs' with
  | nil =>
      cases gs' with
      | nil => rfl
      | cons g gs' => simp [bodyText] at heq
  | cons f fs' =>
      cases gs' with
      | nil => simp [bodyText] at heq
      | cons g gs' =>
          have hend : ∀ (f : Field Shape) (u : List Char),
              "\n\x7d".toList ≠ ['\n'] ++ (bodyLine o σ f ++ u) := fun f u hu =>
            bodyLine_append_ne f [] u (List.cons.inj hu).2
          -- a line ends with a semicolon, so that it is told apart whatever follows
          have hlines : ∀ a ∈ f :: fs', ∀ b ∈ g :: gs', ∀ u v, True → True →
              bodyLine o σ a ++ u = bodyLine o σ b ++ v →
                a.map Shape.identity = b.map Shape.identity ∧ u = v :=
            fun a ha b hb u v _ _ => hsorted.bodyLine_append_inj ha hb
          rw [bodyText_cons, bodyText_cons] at heq
          refine (separated_append_inj ?_ ?_ ?_ hlines (fun _ _ => hend _) (fun _ _ => hend _)
            (List.cons_ne_nil _ _) (List.cons_ne_nil _ _) (List.append_cancel_left heq)).1
          · exact fun _ => trivial
          · trivial
          · trivial

end Objects

section Forms

variable {o : Options} {σ : Key → Option String} {s r : Shape}

/-- How the text of an item begins. -/
inductive Form
  | bare
  | quoted
  | inline
  | group

def Form.ofChar (o : Options) (c : Char) : Form :=
  if c = o.quote.char then .quoted
  else if c = '\x7b' then .inline
  else if c = '(' then .group
  else .bare

/-- An item that is not an array, by the form of its text. -/
inductive Atom (o : Options) (σ : Key → Option String) : Form → Shape → Prop
  | bare {s : Shape} (h : Bare o σ s) : Atom o σ .bare s
  | quoted (t : String) : Atom o σ .quoted (.primitive .string (some (.str t)))
  | inline {fs : List (Field Shape)} (h : isInline o fs = true) : Atom o σ .inline (.object fs)
  | group {ms : List Shape} (h : 1 < (texts o σ false (.union ms)).length) :
      Atom o σ .group (.union ms)

theorem ofChar_of_isBare {c : Char} (hc : isBare c = true) : Form.ofChar o c = .bare := by
  have hquote : c ≠ o.quote.char := by
    rintro rfl
    rw [quote_not_bare] at hc
    cases hc
  have hbrace : c ≠ '\x7b' := by
    rintro rfl
    exact absurd hc (by decide)
  have hparenthesis : c ≠ '(' := by
    rintro rfl
    exact absurd hc (by decide)
  rw [Form.ofChar, if_neg hquote, if_neg hbrace, if_neg hparenthesis]

theorem ofChar_brace : Form.ofChar o '\x7b' = .inline := by
  cases h : o.quote <;> simp [Form.ofChar, h, QuoteStyle.char]

theorem ofChar_parenthesis : Form.ofChar o '(' = .group := by
  cases h : o.quote <;> simp [Form.ofChar, h, QuoteStyle.char]

theorem Bare.itemOf_eq (h : Bare o σ s) (hs : s.Regular) : itemOf o σ s = render o σ s := by
  apply itemOf_eq_render hs
  cases h with
  | word h =>
      have hwords : ∀ p ∈ plainWords, p.1.isUnion = false := by decide
      exact hwords _ h
  | number => rfl
  | name => rfl

theorem itemOf_inline {fs : List (Field Shape)} (hfs : (Shape.object fs).Regular)
    (h : isInline o fs = true) : itemOf o σ (.object fs) = inlineText (lines o σ fs) := by
  rw [itemOf_eq_render hfs rfl, render_inline h]

theorem itemOf_group {ms : List Shape} (h : 1 < (texts o σ false (.union ms)).length) :
    itemOf o σ (.union ms) = '(' :: (alternatives (texts o σ false (.union ms)) ++ [')']) := by
  rw [itemOf, itemText, if_pos h]

theorem inlineText_eq_cons (ts : List (List Char)) : ∃ rest, inlineText ts = '\x7b' :: rest := by
  cases ts with
  | nil => exact ⟨_, rfl⟩
  | cons t ts => exact ⟨_, rfl⟩

/-- The first character of an item tells its form. -/
theorem Atom.exists_cons {form : Form} (h : Atom o σ form s) (hs : s.Regular) :
    ∃ c rest, itemOf o σ s = c :: rest ∧ Form.ofChar o c = form := by
  cases h with
  | bare h =>
      obtain ⟨c, rest, htext⟩ := List.exists_cons_of_ne_nil h.ne_nil
      have hc := h.isBare c (htext ▸ List.mem_cons_self)
      exact ⟨c, rest, (h.itemOf_eq hs).trans htext, ofChar_of_isBare hc⟩
  | quoted t =>
      rw [itemOf_eq_render hs rfl, render_primitive]
      exact ⟨o.quote.char, _, rfl, if_pos rfl⟩
  | inline h =>
      obtain ⟨rest, hrest⟩ := inlineText_eq_cons (lines o σ _)
      exact ⟨_, rest, (itemOf_inline hs h).trans hrest, ofChar_brace⟩
  | group h => exact ⟨_, _, itemOf_group h, ofChar_parenthesis⟩

/-- Items that are not arrays are told apart when what they consist of is. -/
theorem Atom.append_inj (hnull : o.nullAsOptional = false) (hσ : Faithful σ) {form form' : Form}
    (ha : Atom o σ form s) (hb : Atom o σ form' r) (hs : Legible o σ s) (hr : Legible o σ r)
    (hmembers : ∀ ms, s = .union ms → ∀ m ∈ ms, Told o σ m)
    (hcontents : ∀ fs, s = .object fs → ∀ f ∈ fs, ∀ m ∈ f.content.members, Told o σ m)
    {x y : List Char} (hx : Stops isBare x) (hy : Stops isBare y)
    (heq : itemOf o σ s ++ x = itemOf o σ r ++ y) : s.identity = r.identity ∧ x = y := by
  -- texts of different forms differ in their first characters
  have hform : form = form' := by
    obtain ⟨c, rest, hc, rfl⟩ := ha.exists_cons hs.regular
    obtain ⟨d, rest', hd, rfl⟩ := hb.exists_cons hr.regular
    rw [hc, hd] at heq
    rw [(List.cons.inj heq).1]
  subst hform
  cases ha with
  | bare ha =>
      cases hb with
      | bare hb =>
          rw [ha.itemOf_eq hs.regular, hb.itemOf_eq hr.regular] at heq
          exact ha.append_inj hσ hb hx hy heq
  | quoted t =>
      cases hb with
      | quoted u =>
          rw [itemOf_eq_render hs.regular rfl, itemOf_eq_render hr.regular rfl, render_primitive,
            render_primitive] at heq
          obtain ⟨htext, hrest⟩ := Text.enclosed_append_inj (quote_ne_backslash o.quote) heq
          rw [String.toList_inj.mp htext]
          exact ⟨rfl, hrest⟩
  | @inline fs ha =>
      cases hb with
      | @inline gs hb =>
          have hapart : LinesApart o σ fs gs := fun f hf g hg x y hx hy =>
            lineText_append_inj hnull (hs.of_within (.content hf (.refl _)))
              (hr.of_within (.content hg (.refl _))) (hcontents fs rfl f hf) hx hy
          rw [itemOf_inline hs.regular ha, itemOf_inline hr.regular hb] at heq
          exact inlineText_append_inj hapart heq
  | group ha =>
      cases hb with
      | group hb =>
          rw [itemOf_group ha, itemOf_group hb] at heq
          simp only [List.cons_append, List.append_assoc, List.cons.injEq, true_and] at heq
          obtain ⟨htexts, hrest⟩ := texts_append_inj hs hr (hmembers _ rfl)
            (endsType_of_ne (by decide) (by decide)) (endsType_of_ne (by decide) (by decide)) heq
          exact ⟨identity_eq_of_texts_eq hs hr (hmembers _ rfl) htexts, (List.cons.inj hrest).2⟩

/-- Scalars and objects are not arrays, and have one of the forms. -/
theorem Legible.exists_atom (hs : Legible o σ s) (harray : ∀ i, s ≠ .array i)
    (hunion : s.isUnion = false) : ∃ form, Atom o σ form s := by
  cases hs.regular with
  | null => exact ⟨_, .bare (.word (w := "null") List.mem_cons_self)⟩
  | primitive hkind =>
      rcases bare_or_string hkind with ⟨h, -⟩ | ⟨t, rfl, rfl⟩
      · exact ⟨_, .bare h⟩
      · exact ⟨_, .quoted t⟩
  | array => exact absurd rfl (harray _)
  | @object fs =>
      cases hinline : isInline o fs with
      | true => exact ⟨_, .inline hinline⟩
      | false =>
          obtain ⟨name, hname, hinvented⟩ :=
            hs.names fs (mem_occurring.mpr ⟨hinline, .refl _⟩)
          exact ⟨_, .bare (.name hinline hname hinvented)⟩
  | union => cases hunion

/-- A union with fewer than two texts is written like each of its members. -/
theorem itemOf_eq_of_mem {ms : List Shape} (hs : (Shape.union ms).Regular)
    (hlength : ¬ 1 < (texts o σ false (.union ms)).length) {m : Shape} (hm : m ∈ ms) :
    itemOf o σ (.union ms) = itemOf o σ m := by
  have hmem : itemOf o σ m ∈ texts o σ false (.union ms) := (mem_texts hs).mpr ⟨m, hm, rfl⟩
  have hsingle : texts o σ false (.union ms) = [itemOf o σ m] := by
    match htexts : texts o σ false (.union ms) with
    | [] => exact absurd htexts (texts_ne_nil hs)
    | [t] =>
        rw [htexts] at hmem
        rw [List.mem_singleton.mp hmem]
    | t :: u :: ts =>
        rw [htexts] at hlength
        exact absurd (by simp) hlength
  rw [itemOf, hsingle, itemText_singleton]

/-- An item that is not an array is told apart from all others: from arrays by their items, and
from unions that would be written like a single member by two members that differ. -/
theorem Atom.told (hnull : o.nullAsOptional = false) (hσ : Faithful σ) {form : Form}
    (ha : Atom o σ form s) (hs : Legible o σ s)
    (hmembers : ∀ ms, s = .union ms → ∀ m ∈ ms, Told o σ m)
    (hcontents : ∀ fs, s = .object fs → ∀ f ∈ fs, ∀ m ∈ f.content.members, Told o σ m) :
    Told o σ s := by
  intro r hr n k x y hx hy heq
  have hatom : ∀ {form' : Form} {r : Shape} {k : Nat}, Atom o σ form' r → Legible o σ r →
      itemOf o σ s ++ (brackets n ++ x) = itemOf o σ r ++ (brackets k ++ y) →
        arrays n s.identity = arrays k r.identity ∧ x = y := by
    intro form' r k hb hr heq
    obtain ⟨hidentity, hrest⟩ := ha.append_inj hnull hσ hb hs hr hmembers hcontents
      (stops_brackets_append hx n) (stops_brackets_append hy k) heq
    obtain ⟨rfl, hxy⟩ := brackets_append_inj hx hy hrest
    exact ⟨by rw [hidentity], hxy⟩
  have hreg := hr.regular
  induction hreg generalizing k with
  | array _ ih =>
      apply ih (hr.of_within (.item (.refl _))) (k := k + 1)
      rw [heq, itemOf_array, arrayText, List.append_assoc]
      rfl
  | @union ms hne hflat hms ih =>
      by_cases hlength : 1 < (texts o σ false (.union ms)).length
      · exact hatom (.group hlength) hr heq
      · exfalso
        have hmember : ∀ m ∈ ms, arrays n s.identity = arrays k m.identity := fun m hm =>
          (ih m hm (hr.of_within (.member hm (.refl m)))
            (itemOf_eq_of_mem hr.regular hlength hm ▸ heq)).1
        obtain ⟨m, hm, l, hl, hne⟩ := hr.unequal ms (.refl _)
        exact hne (arrays_injective k ((hmember m hm).symm.trans (hmember l hl)))
  | _ =>
      obtain ⟨form', hb⟩ := hr.exists_atom (fun i => by rintro ⟨⟩) rfl
      exact hatom hb hr heq

/-- The texts of items are told apart, and so are those of the members of unions. -/
theorem told (hnull : o.nullAsOptional = false) (hσ : Faithful σ) (hs : Legible o σ s) :
    Told o σ s ∧ ∀ m ∈ s.members, Told o σ m := by
  have hreg := hs.regular
  induction hreg with
  | @array s _ ih =>
      have hitem := (ih (hs.of_within (.item (.refl s)))).1
      have harray : Told o σ (.array s) := by
        intro r hr n k x y hx hy heq
        apply hitem hr (n := n + 1) hx hy
        rw [← heq, itemOf_array, arrayText, List.append_assoc]
        rfl
      exact ⟨harray, List.forall_mem_singleton.mpr harray⟩
  | @union ms _ _ _ ih =>
      have hmembers : ∀ m ∈ ms, Told o σ m := fun m hm =>
        (ih m hm (hs.of_within (.member hm (.refl m)))).1
      have hlength : 1 < (texts o σ false (.union ms)).length := by
        by_contra hlength
        obtain ⟨m, hm, l, hl, hne⟩ := hs.unequal ms (.refl _)
        apply hne
        apply (hmembers m hm).item_inj (hs.of_within (.member hl (.refl l)))
        rw [← itemOf_eq_of_mem hs.regular hlength hm, itemOf_eq_of_mem hs.regular hlength hl]
      refine ⟨(Atom.group hlength).told hnull hσ hs ?_ ?_, hmembers⟩
      · rintro _ ⟨⟩
        exact hmembers
      · rintro _ ⟨⟩
  | @object fs hnames hfs ih =>
      obtain ⟨form, ha⟩ := hs.exists_atom (fun i => by rintro ⟨⟩) rfl
      have hobject : Told o σ (.object fs) := by
        apply ha.told hnull hσ hs
        · rintro _ ⟨⟩
        · rintro _ ⟨⟩ f hf
          exact (ih f hf (hs.of_within (.content hf (.refl _)))).2
      exact ⟨hobject, List.forall_mem_singleton.mpr hobject⟩
  | _ =>
      obtain ⟨form, ha⟩ := hs.exists_atom (fun i => by rintro ⟨⟩) rfl
      have hscalar : Told o σ _ := ha.told hnull hσ hs (by rintro _ ⟨⟩) (by rintro _ ⟨⟩)
      exact ⟨hscalar, List.forall_mem_singleton.mpr hscalar⟩

/-- Type expressions in front of what does not go on with them say which structure they are of. -/
theorem render_append_inj (hnull : o.nullAsOptional = false) (hσ : Faithful σ)
    (hs : Legible o σ s) (hr : Legible o σ r) {x y : List Char} (hx : EndsType x)
    (hy : EndsType y) (heq : render o σ s ++ x = render o σ r ++ y) :
    s.identity = r.identity ∧ x = y :=
  type_append_inj hs hr (told hnull hσ hs).2 hx hy heq

/-- Objects with the same body are the same. -/
theorem identity_eq_of_body_eq (hnull : o.nullAsOptional = false) (hσ : Faithful σ)
    {fs gs : List (Field Shape)} (hfs : ∀ f ∈ fs, Legible o σ f.content)
    (hgs : ∀ g ∈ gs, Legible o σ g.content) (heq : body o σ fs = body o σ gs) :
    (Shape.object fs).identity = (Shape.object gs).identity := by
  have hapart : LinesApart o σ fs gs := fun f hf g hg x y hx hy =>
    lineText_append_inj hnull (hfs f hf) (hgs g hg) (told hnull hσ (hfs f hf)).2 hx hy
  exact hapart.identity_eq heq

end Forms

end TypeSketch.Emission
