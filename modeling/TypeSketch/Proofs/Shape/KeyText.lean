import TypeSketch.Proofs.Entries
import TypeSketch.Proofs.Json.Number
import TypeSketch.Proofs.Literal
import TypeSketch.Proofs.Text.Shown
import TypeSketch.Shape.Key

/-!
# Written keys

The members of a union are put in order by the written forms of their keys.  Main statements:
different keys have different written forms, so the arrangement of a union depends on nothing but
which keys its members have.
-/

namespace TypeSketch

/-- The field with another content. -/
def Field.map {α β : Type} (g : α → β) (f : Field α) : Field β :=
  ⟨f.name, g f.content, f.isOptional⟩

namespace Key

/-- Keys whose literals are tokens of their kind. -/
inductive Proper : Key → Prop
  | null : Proper .null
  | bare (kind : Kind) : Proper (.primitive kind none)
  | literal {kind : Kind} {l : Literal} (h : l.IsToken kind) : Proper (.primitive kind (some l))
  | array {k : Key} (h : Proper k) : Proper (.array k)
  | object {fs : List (Field Key)} (h : ∀ f ∈ fs, Proper f.content) : Proper (.object fs)
  | union {ks : List Key} (h : ∀ k ∈ ks, Proper k) : Proper (.union ks)

/-- The first word of the written form. -/
def tag : Key → String
  | .null => "null"
  | .primitive _ _ => "primitive"
  | .array _ => "array"
  | .object _ => "object"
  | .union _ => "union"
  | .hole => ""

def fieldText (f : Field Key) : List Char :=
  tuple [shownName f.name, (Literal.bool f.isOptional).text, f.content.text]

theorem texts_eq_map (ks : List Key) : texts ks = ks.map text := by
  induction ks with
  | nil => rfl
  | cons k ks ih => rw [texts, ih, List.map_cons]

theorem textsOfFields_eq_map (fs : List (Field Key)) : textsOfFields fs = fs.map fieldText := by
  induction fs with
  | nil => rfl
  | cons f fs ih =>
      obtain ⟨n, k, o⟩ := f
      rw [textsOfFields, ih, List.map_cons]
      rfl

theorem commaSeparated_cons (t u : List Char) (ts : List (List Char)) :
    commaSeparated (t :: u :: ts) = t ++ ',' :: ' ' :: commaSeparated (u :: ts) := rfl

section Tuple

variable {α : Type} {code : α → List Char}

/-- Texts between commas are told apart when each of them is, and none starts with the bracket that
ends them all. -/
theorem commaSeparated_append_inj (hstart : ∀ x, ∃ t, code x = '(' :: t) :
    ∀ {xs ys : List α},
    (∀ x ∈ xs, ∀ y ∈ ys, ∀ r s, code x ++ r = code y ++ s → x = y ∧ r = s) →
    ∀ {r s : List Char},
    commaSeparated (xs.map code) ++ ')' :: r = commaSeparated (ys.map code) ++ ')' :: s →
    xs = ys ∧ r = s
  | [], [], _, r, s, h => ⟨rfl, (List.cons.inj h).2⟩
  | [], y :: ys, _, r, s, h => by
      -- an entry would start with an opening bracket where there is a closing one
      obtain ⟨t, ht⟩ := hstart y
      cases ys <;> simp [commaSeparated, ht] at h
  | x :: xs, [], _, r, s, h => by
      obtain ⟨t, ht⟩ := hstart x
      cases xs <;> simp [commaSeparated, ht] at h
  | [x], [y], hinj, r, s, h => by
      obtain ⟨rfl, hrest⟩ := hinj x (by simp) y (by simp) _ _ h
      exact ⟨rfl, (List.cons.inj hrest).2⟩
  | [x], y :: y' :: ys, hinj, r, s, h => by
      -- one list goes on with a comma and the other one ends
      rw [List.map_cons, List.map_cons, List.map_cons, commaSeparated_cons,
        List.append_assoc] at h
      have hrest := (hinj x (by simp) y (by simp) _ _ h).2
      simp at hrest
  | x :: x' :: xs, [y], hinj, r, s, h => by
      rw [List.map_cons, List.map_cons, List.map_cons, commaSeparated_cons,
        List.append_assoc] at h
      have hrest := (hinj x (by simp) y (by simp) _ _ h).2
      simp at hrest
  | x :: x' :: xs, y :: y' :: ys, hinj, r, s, h => by
      rw [List.map_cons, List.map_cons, List.map_cons, List.map_cons, commaSeparated_cons,
        commaSeparated_cons, List.append_assoc, List.append_assoc] at h
      obtain ⟨rfl, hrest⟩ := hinj x (by simp) y (by simp) _ _ h
      have htail : ∀ a ∈ x' :: xs, ∀ b ∈ y' :: ys, ∀ r s, code a ++ r = code b ++ s →
          a = b ∧ r = s := fun a ha b hb =>
        hinj a (List.mem_cons_of_mem _ ha) b (List.mem_cons_of_mem _ hb)
      obtain ⟨hxs, hrs⟩ := commaSeparated_append_inj hstart htail
        (List.cons.inj (List.cons.inj hrest).2).2
      exact ⟨by rw [hxs], hrs⟩

theorem tuple_of_length_ne_one {ts : List (List Char)} (h : ts.length ≠ 1) :
    tuple ts = '(' :: (commaSeparated ts ++ [')']) := by
  match ts with
  | [] => rfl
  | [t] => exact absurd rfl h
  | t :: u :: ts => rfl

/-- The comma behind a single entry tells its tuple apart from all others. -/
theorem tuple_singleton_append_ne (hstart : ∀ x, ∃ t, code x = '(' :: t) {x : α} {ys : List α}
    (hinj : ∀ y ∈ ys, ∀ r s, code x ++ r = code y ++ s → x = y ∧ r = s) (hys : ys.length ≠ 1)
    (r s : List Char) : tuple [code x] ++ r ≠ tuple (ys.map code) ++ s := by
  intro h
  have hlen : (ys.map code).length ≠ 1 := by rwa [List.length_map]
  rw [tuple_of_length_ne_one hlen] at h
  match ys with
  | [] =>
      obtain ⟨t, ht⟩ := hstart x
      simp [tuple, commaSeparated, ht] at h
  | [y] => exact hys rfl
  | y :: y' :: ys =>
      rw [List.map_cons, List.map_cons, commaSeparated_cons] at h
      simp only [tuple, List.cons_append, List.append_assoc] at h
      have hrest := (hinj y List.mem_cons_self _ _ (List.cons.inj h).2).2
      simp at hrest

/-- A tuple is told apart from another one, whatever follows, when its entries are. -/
theorem tuple_append_inj (hstart : ∀ x, ∃ t, code x = '(' :: t) {xs ys : List α}
    (hinj : ∀ x ∈ xs, ∀ y ∈ ys, ∀ r s, code x ++ r = code y ++ s → x = y ∧ r = s)
    {r s : List Char} (h : tuple (xs.map code) ++ r = tuple (ys.map code) ++ s) :
    xs = ys ∧ r = s := by
  by_cases hx : xs.length = 1
  · obtain ⟨x, rfl⟩ := List.length_eq_one_iff.mp hx
    by_cases hy : ys.length = 1
    · obtain ⟨y, rfl⟩ := List.length_eq_one_iff.mp hy
      simp only [List.map_cons, List.map_nil, tuple, List.cons_append, List.append_assoc] at h
      obtain ⟨rfl, hrest⟩ := hinj x (by simp) y (by simp) _ _ (List.cons.inj h).2
      exact ⟨rfl, (List.cons.inj (List.cons.inj hrest).2).2⟩
    · exact absurd h (tuple_singleton_append_ne hstart (hinj x List.mem_cons_self) hy r s)
  · by_cases hy : ys.length = 1
    · obtain ⟨y, rfl⟩ := List.length_eq_one_iff.mp hy
      refine absurd h.symm (tuple_singleton_append_ne hstart (fun x hmem r s heq => ?_) hx s r)
      obtain ⟨hxy, hrs⟩ := hinj x hmem y (by simp) s r heq.symm
      exact ⟨hxy.symm, hrs.symm⟩
    · rw [tuple_of_length_ne_one (by rwa [List.length_map]),
        tuple_of_length_ne_one (by rwa [List.length_map])] at h
      simp only [List.cons_append, List.append_assoc, List.nil_append] at h
      exact commaSeparated_append_inj hstart hinj (List.cons.inj h).2

end Tuple

/-- What stands behind the first word of a written key. -/
def body : Key → List Char
  | .null => [')']
  | .primitive kind none => ' ' :: (shownName kind.name ++ [')'])
  | .primitive kind (some l) => ' ' :: (shownName kind.name ++ ',' :: ' ' :: (l.shown ++ [')']))
  | .array k => ' ' :: (k.text ++ [')'])
  | .object fs => ' ' :: (tuple (fs.map fieldText) ++ [')'])
  | .union ks => ' ' :: (tuple (ks.map text) ++ [')'])
  | .hole => []

theorem text_eq {k : Key} (hk : Proper k) :
    k.text = '(' :: (shownName k.tag ++ ',' :: k.body) := by
  cases hk with
  | null => rfl
  | bare kind => simp [text, tuple, commaSeparated, tag, body]
  | literal h => simp [text, tuple, commaSeparated, tag, body]
  | array h => simp [text, tuple, commaSeparated, tag, body]
  | object h => simp [text, textsOfFields_eq_map, tuple, commaSeparated, tag, body]
  | union h => simp [text, texts_eq_map, tuple, commaSeparated, tag, body]

theorem exists_text_eq_cons (k : Key) : ∃ t, k.text = '(' :: t := by
  cases k with
  | null => exact ⟨_, rfl⟩
  | primitive kind l => cases l <;> exact ⟨_, rfl⟩
  | array k => exact ⟨_, rfl⟩
  | object fs => exact ⟨_, rfl⟩
  | union ks => exact ⟨_, rfl⟩
  | hole => exact ⟨_, rfl⟩

theorem shownName_append_inj {a b : String} {r s : List Char}
    (h : shownName a ++ r = shownName b ++ s) : a = b ∧ r = s := by
  obtain ⟨hab, hrs⟩ := Text.shown_append_inj h
  exact ⟨String.toList_inj.mp hab, hrs⟩

/-- Tokens of one kind are told apart by their shown forms in front of a closing bracket. -/
theorem shown_literal_append_inj {kind : Kind} {l m : Literal} (hl : l.kind = kind)
    (hm : m.kind = kind) {r s : List Char} (h : l.shown ++ ')' :: r = m.shown ++ ')' :: s) :
    l = m ∧ r = s := by
  have hstop : ∀ r, Json.StopsNumber (')' :: r) := by
    rintro r c ⟨⟩
    decide
  cases kind with
  | string =>
      cases l <;> cases hl
      cases m <;> cases hm
      obtain ⟨hst, hrest⟩ := Text.shown_append_inj h
      exact ⟨by rw [String.toList_inj.mp hst], (List.cons.inj hrest).2⟩
  | boolean =>
      cases l <;> cases hl
      cases m <;> cases hm
      rename_i a b
      cases a <;> cases b <;> simp [Literal.shown, Literal.text] at h ⊢ <;> exact h
  | number =>
      have hshown : ∀ l : Literal, l.kind = .number → l.shown = l.text := by
        intro l hl
        cases l <;> cases hl <;> rfl
      rw [hshown l hl, hshown m hm] at h
      obtain ⟨hlm, hrest⟩ := Json.number_text_append_inj hl hm (hstop r) (hstop s) h
      exact ⟨hlm, (List.cons.inj hrest).2⟩

theorem truth_text_append_inj {a b : Bool} {r s : List Char}
    (h : (Literal.bool a).text ++ ',' :: r = (Literal.bool b).text ++ ',' :: s) :
    a = b ∧ r = s := by
  cases a <;> cases b <;> simp [Literal.text] at h ⊢ <;> exact h

theorem kind_eq_of_name_eq {a b : Kind} (h : a.name = b.name) : a = b := by
  cases a <;> cases b <;> first | rfl | exact absurd h (by decide)

/-- Fields are told apart by their written forms when their contents are. -/
theorem fieldText_append_inj {f g : Field Key}
    (hinj : ∀ r s, f.content.text ++ r = g.content.text ++ s → f.content = g.content ∧ r = s)
    {r s : List Char} (h : fieldText f ++ r = fieldText g ++ s) : f = g ∧ r = s := by
  obtain ⟨n, k, o⟩ := f
  obtain ⟨n', k', o'⟩ := g
  simp only [fieldText, tuple, commaSeparated, List.cons_append, List.append_assoc,
    List.nil_append] at h
  obtain ⟨rfl, hflag⟩ := shownName_append_inj (List.cons.inj h).2
  obtain ⟨rfl, hcontent⟩ := truth_text_append_inj (List.cons.inj (List.cons.inj hflag).2).2
  obtain ⟨hk, hrest⟩ := hinj _ _ (List.cons.inj hcontent).2
  exact ⟨by rw [Field.mk.injEq]; exact ⟨rfl, hk, rfl⟩, (List.cons.inj hrest).2⟩

/-- The first words tell the constructors apart. -/
theorem tag_eq_of_text_append_eq {k l : Key} (hk : Proper k) (hl : Proper l) {r s : List Char}
    (h : k.text ++ r = l.text ++ s) : k.tag = l.tag ∧ k.body ++ r = l.body ++ s := by
  rw [text_eq hk, text_eq hl] at h
  simp only [List.cons_append, List.append_assoc] at h
  obtain ⟨htag, hbody⟩ := shownName_append_inj (List.cons.inj h).2
  exact ⟨htag, (List.cons.inj hbody).2⟩

/-- Different keys have different written forms, whatever follows them. -/
theorem text_append_inj {k : Key} (hk : Proper k) :
    ∀ {l : Key}, Proper l → ∀ {r s : List Char}, k.text ++ r = l.text ++ s → k = l ∧ r = s := by
  -- the first word tells the form of the other key, and what it holds follows by induction
  induction hk with
  | null =>
      intro l hl r s h
      obtain ⟨htag, hbody⟩ := tag_eq_of_text_append_eq .null hl h
      cases hl with
      | null => exact ⟨rfl, (List.cons.inj hbody).2⟩
      | _ => exact absurd htag (by simp [tag])
  | bare kind =>
      intro l hl r s h
      obtain ⟨htag, hbody⟩ := tag_eq_of_text_append_eq (.bare kind) hl h
      cases hl with
      | bare kind' =>
          simp only [body, List.cons_append, List.append_assoc] at hbody
          obtain ⟨hkind, hrest⟩ := shownName_append_inj (List.cons.inj hbody).2
          exact ⟨by rw [kind_eq_of_name_eq hkind], (List.cons.inj hrest).2⟩
      | literal h' =>
          -- the bracket of a bare kind stands where a literal has its comma
          simp only [body, List.cons_append, List.append_assoc] at hbody
          have hrest := (shownName_append_inj (List.cons.inj hbody).2).2
          simp at hrest
      | _ => exact absurd htag (by simp [tag])
  | literal hlit =>
      intro l hl r s h
      obtain ⟨htag, hbody⟩ := tag_eq_of_text_append_eq (.literal hlit) hl h
      cases hl with
      | bare kind' =>
          simp only [body, List.cons_append, List.append_assoc] at hbody
          have hrest := (shownName_append_inj (List.cons.inj hbody).2).2
          simp at hrest
      | literal h' =>
          simp only [body, List.cons_append, List.append_assoc, List.nil_append] at hbody
          obtain ⟨hkind, hrest⟩ := shownName_append_inj (List.cons.inj hbody).2
          have hkind := kind_eq_of_name_eq hkind
          subst hkind
          obtain ⟨rfl, hrs⟩ :=
            shown_literal_append_inj hlit.1 h'.1 (List.cons.inj (List.cons.inj hrest).2).2
          exact ⟨rfl, hrs⟩
      | _ => exact absurd htag (by simp [tag])
  | array hk ih =>
      intro l hl r s h
      obtain ⟨htag, hbody⟩ := tag_eq_of_text_append_eq (.array hk) hl h
      cases hl with
      | array hl =>
          simp only [body, List.cons_append, List.append_assoc] at hbody
          obtain ⟨rfl, hrest⟩ := ih hl (List.cons.inj hbody).2
          exact ⟨rfl, (List.cons.inj hrest).2⟩
      | _ => exact absurd htag (by simp [tag])
  | object hfs ih =>
      intro l hl r s h
      obtain ⟨htag, hbody⟩ := tag_eq_of_text_append_eq (.object hfs) hl h
      cases hl with
      | object hgs =>
          simp only [body, List.cons_append, List.append_assoc] at hbody
          obtain ⟨rfl, hrest⟩ := tuple_append_inj (fun f => ⟨_, rfl⟩)
            (fun f hf g hg r s => fieldText_append_inj fun r s => ih f hf (hgs g hg))
            (List.cons.inj hbody).2
          exact ⟨rfl, (List.cons.inj hrest).2⟩
      | _ => exact absurd htag (by simp [tag])
  | union hks ih =>
      intro l hl r s h
      obtain ⟨htag, hbody⟩ := tag_eq_of_text_append_eq (.union hks) hl h
      cases hl with
      | union hls =>
          simp only [body, List.cons_append, List.append_assoc] at hbody
          obtain ⟨rfl, hrest⟩ := tuple_append_inj exists_text_eq_cons
            (fun k hk l hl r s => ih k hk (hls l hl)) (List.cons.inj hbody).2
          exact ⟨rfl, (List.cons.inj hrest).2⟩
      | _ => exact absurd htag (by simp [tag])

theorem eq_of_text_eq {k l : Key} (hk : Proper k) (hl : Proper l) (h : k.text = l.text) :
    k = l :=
  (text_append_inj hk hl (congrArg (· ++ []) h)).1

theorem canonicalFields_eq_map (fs : List (Field Key)) :
    canonicalFields fs = fs.map (Field.map canonical) := by
  induction fs with
  | nil => rfl
  | cons f fs ih => rw [canonicalFields, ih, List.map_cons]; rfl

theorem canonicalMembers_eq_map (ks : List Key) : canonicalMembers ks = ks.map canonical := by
  induction ks with
  | nil => rfl
  | cons k ks ih => rw [canonicalMembers, ih, List.map_cons]

/-- Where every literal is a token of its kind, no other key stands for the same structure. -/
theorem Proper.canonical_eq {k : Key} (hk : Proper k) : k.canonical = k := by
  induction hk with
  | null => rfl
  | bare kind => rfl
  | literal h => rw [canonical, Option.map_some, h.canonical]
  | array _ ih => rw [canonical, ih]
  | object _ ih =>
      rw [canonical, canonicalFields_eq_map, List.map_congr_left (g := id), List.map_id]
      intro f hf
      rw [Field.map, ih f hf]
      rfl
  | union _ ih =>
      rw [canonical, canonicalMembers_eq_map, List.map_congr_left (g := id), List.map_id]
      exact ih

section Arrange

variable {ks ls : List Key}

theorem distinctOn_canonical (hks : ∀ k ∈ ks, Proper k) :
    distinctOn canonical ks = distinctOn id ks := by
  apply distinctOn_congr
  intro k hk l hl
  rw [(hks k hk).canonical_eq, (hks l hl).canonical_eq]
  rfl

theorem mem_arrange (hks : ∀ k ∈ ks, Proper k) {k : Key} : k ∈ arrange ks ↔ k ∈ ks := by
  rw [arrange, List.mem_mergeSort, distinctOn_canonical hks]
  exact mem_distinctOn_id

/-- The arrangement of a union depends on nothing but which keys there are. -/
theorem arrange_eq_iff (hks : ∀ k ∈ ks, Proper k) (hls : ∀ l ∈ ls, Proper l) :
    arrange ks = arrange ls ↔ ∀ k, k ∈ ks ↔ k ∈ ls := by
  constructor
  · intro h k
    rw [← mem_arrange hks, ← mem_arrange hls, h]
  · intro h
    have hperm : (distinctOn canonical ks).Perm (distinctOn canonical ls) := by
      rw [distinctOn_canonical hks, distinctOn_canonical hls]
      exact perm_distinctOn_id h
    apply mergeSort_eq_of_perm _ _ hperm
    · intro k hk l hl hkl hlk
      have hk' := hks k (mem_of_mem_distinctOn canonical hk)
      have hl' := hls l (mem_of_mem_distinctOn canonical hl)
      exact eq_of_text_eq hk' hl' (Text.le_antisymm hkl hlk)
    · exact fun a b c => Text.le_trans a.text b.text c.text
    · exact fun a b => Text.le_total a.text b.text

end Arrange

end Key

end TypeSketch
