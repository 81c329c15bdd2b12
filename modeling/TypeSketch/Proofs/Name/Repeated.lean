import TypeSketch.Proofs.Entries
import TypeSketch.Proofs.Name.Singular
import TypeSketch.Proofs.Text.Case
import TypeSketch.Proofs.Text.Digits

/-!
# The singular of a singular

A name in the singular is left alone, but for two kinds of names: a singular such as `analysis` loses
the `s` it ends in, and an irregular plural shows when the `s` behind it is gone.  For all other
words the tables and endings do not get in each other's way: none of them is an ending of what
another one leaves behind.  Main statement: `singularize_singularize_iff`.
-/

namespace TypeSketch

namespace Text

theorem toNat_lt_of_isAlpha {c : Char} (h : c.isAlpha = true) : c.toNat < 0x80 := by
  rw [Char.isAlpha, Bool.or_eq_true] at h
  rcases h with h | h
  · simp only [Char.isUpper, decide_eq_true_eq] at h
    exact Nat.lt_of_le_of_lt (UInt32.le_iff_toNat_le.mp h.2) (by decide)
  · simp only [Char.isLower, Bool.and_eq_true, decide_eq_true_eq] at h
    exact Nat.lt_of_le_of_lt (UInt32.le_iff_toNat_le.mp h.2) (by decide)

theorem toLowerAfter_eq_map {s : List Char} (h : ∀ c ∈ s, c.toNat < 0x80) (before : List Char) :
    toLowerAfter before s = s.map Char.toLower := by
  induction s generalizing before with
  | nil => rfl
  | cons c rest ih =>
      obtain ⟨hc, hrest⟩ := List.forall_mem_cons.mp h
      have hsigma : c ≠ 'Σ' := by
        rintro rfl
        exact absurd hc (by decide)
      rw [toLowerAfter, if_neg hsigma, lowerOf_ascii hc, ih hrest, List.map_cons,
        List.singleton_append]

/-- A text of ASCII letters. -/
def Lettered (s : List Char) : Prop := ∀ c ∈ s, c.isAlpha = true

instance (s : List Char) : Decidable (Lettered s) :=
  inferInstanceAs (Decidable (∀ c ∈ s, c.isAlpha = true))

namespace Lettered

variable {s t : List Char}

theorem toLower_eq (h : Lettered s) : toLower s = s.map Char.toLower :=
  toLowerAfter_eq_map (fun c hc => toNat_lt_of_isAlpha (h c hc)) []

theorem append (hs : Lettered s) (ht : Lettered t) : Lettered (s ++ t) :=
  List.forall_mem_append.mpr ⟨hs, ht⟩

theorem of_suffix (h : Lettered s) (ht : t <:+ s) : Lettered t :=
  fun c hc => h c (ht.subset hc)

theorem of_prefix (h : Lettered s) (ht : t <+: s) : Lettered t :=
  fun c hc => h c (ht.subset hc)

theorem notMem (h : Lettered s) {c : Char} (hc : c.isAlpha = false) : c ∉ s :=
  fun hmem => Bool.noConfusion (hc.symm.trans (h c hmem))

theorem toLower_append (hs : Lettered s) (ht : Lettered t) :
    toLower (s ++ t) = toLower s ++ toLower t := by
  rw [(hs.append ht).toLower_eq, hs.toLower_eq, ht.toLower_eq, List.map_append]

theorem toLower_suffix (hs : Lettered s) (ht : t <:+ s) : toLower t <:+ toLower s := by
  rw [hs.toLower_eq, (hs.of_suffix ht).toLower_eq]
  exact ht.map _

theorem length_toLower (h : Lettered s) : (toLower s).length = s.length := by
  rw [h.toLower_eq, List.length_map]

end Lettered

/-- Neither text is an ending of the other one. -/
def EndsApart (x y : List Char) : Prop := ¬ x <:+ y ∧ ¬ y <:+ x

instance (x y : List Char) : Decidable (EndsApart x y) := inferInstanceAs (Decidable (_ ∧ _))

/-- Two texts that are apart do not end the same text. -/
theorem EndsApart.not_suffix {x y z : List Char} (h : EndsApart x y) (hx : x <:+ z) : ¬ y <:+ z :=
  fun hy => (List.suffix_or_suffix_of_suffix hx hy).elim h.1 h.2

end Text

namespace Name

open Text (Lettered EndsApart toLower)

section Inflection

variable {overrides : List (String × String)} {s before last : List Char}

theorem append_of_splitLastWord (h : splitLastWord s = some (before, last)) :
    before ++ last = s := by
  induction s generalizing before with
  | nil => cases h
  | cons c rest ih =>
      rw [splitLastWord] at h
      split at h
      · cases h
        rfl
      · obtain ⟨⟨before, last⟩, hrest, hparts⟩ := Option.map_eq_some_iff.mp h
        cases hparts
        rw [List.cons_append, ih hrest]

/-- The part of a name that is put into the singular: its last word, or all of it where that is a
single character. -/
def inflected (s : List Char) : List Char :=
  match splitLastWord s with
  | some (_, last) => if last.length < 2 then s else last
  | none => s

/-- On one line, all but the inflected part of a name is kept. -/
theorem exists_singularize_eq (overrides : List (String × String)) (hline : '\n' ∉ s) : ∃ before, before ++ inflected s = s ∧
    singularize overrides s = before ++ singularWord overrides (inflected s) := by
  have hchomp : chomp s = s := if_neg fun h => hline (List.mem_of_getLast? h)
  have hcontains : s.contains '\n' = false := by simpa using hline
  simp only [singularize, inflected, hchomp, hcontains, Bool.false_eq_true, if_false]
  cases hsplit : splitLastWord s with
  | none => exact ⟨[], rfl, rfl⟩
  | some parts =>
      obtain ⟨before, last⟩ := parts
      dsimp only
      split
      · exact ⟨[], rfl, rfl⟩
      · exact ⟨before, append_of_splitLastWord hsplit, rfl⟩

theorem inflected_suffix (s : List Char) : inflected s <:+ s := by
  rw [inflected]
  split
  · rename_i before last hsplit
    split
    · exact List.suffix_rfl
    · exact append_of_splitLastWord hsplit ▸ List.suffix_append _ _
  · exact List.suffix_rfl

theorem length_inflected (h : 2 ≤ s.length) : 2 ≤ (inflected s).length := by
  rw [inflected]
  split
  · split
    · exact h
    · omega
  · exact h

/-- A name is left alone when its inflected part is. -/
theorem singularize_eq_self_iff (hline : '\n' ∉ s) :
    singularize overrides s = s ↔ singularWord overrides (inflected s) = inflected s := by
  obtain ⟨before, hs, hsingular⟩ := exists_singularize_eq overrides hline
  rw [hsingular]
  constructor
  · exact fun h => List.append_cancel_left (h.trans hs.symm)
  · exact fun h => (congrArg (before ++ ·) h).trans hs

end Inflection

section Tables

/-- The endings by which a word that is in no table is changed, other than a single `s`. -/
def longEndings : List (List Char) := ['i', 'e', 's'] :: sibilantEndings

/-- The texts that decide about a word that ends in them, or is one of them. -/
def wordEndings : List (List Char) :=
  irregularPlurals.map (·.1.toList) ++ invariants.map String.toList ++ longEndings

/-- What is left of a word behind which an ending is taken away. -/
def stems : List (List Char) := ['y'] :: sibilantEndings.map (dropEnd 2)

theorem lookup_irregularPlurals :
    ∀ e ∈ irregularPlurals, irregularPlurals.lookup e.1 = some e.2 := by
  decide

/-- A plural in the table is no ending of a singular there, nor the other way round. -/
theorem plural_apart_singular : ∀ e ∈ irregularPlurals, ∀ e' ∈ irregularPlurals,
    EndsApart e'.2.toList e.1.toList := by
  decide +kernel

/-- A singular in the table that ends in `s` ends in `is`, and is not known to look like a
plural. -/
theorem singular_ending : ∀ e ∈ irregularPlurals, ['s'] <:+ e.2.toList →
    ['i', 's'] <:+ e.2.toList ∧ ∀ v ∈ invariants, EndsApart e.2.toList v.toList := by
  decide +kernel

/-- What the endings leave of a word does not end in an irregular plural, nor in a single `s`. -/
theorem stem_apart : ∀ x ∈ stems, (x = ['s', 's'] ∨ EndsApart x ['s']) ∧ x.length ≤ 2 ∧
    ∀ e ∈ irregularPlurals, EndsApart x e.1.toList := by
  decide +kernel

/-- No ending is an irregular plural without an `s`, with an `s` behind it. -/
theorem ending_apart_plural : ∀ x ∈ wordEndings, ['s'] <:+ x → ∀ e ∈ irregularPlurals,
    ¬ ['s'] <:+ e.1.toList → EndsApart e.1.toList x.dropLast := by
  decide +kernel

/-- The singulars are in small letters, and none is a single letter. -/
theorem small_singular : ∀ e ∈ irregularPlurals,
    (∀ c ∈ e.2.toList, c.isLower = true) ∧ 2 ≤ e.2.toList.length := by
  decide +kernel

end Tables

section Cases

variable {s t : List Char}

/-- The second letter is the first one as a small letter. -/
def SmallOf (d c : Char) : Prop := d.isAlpha = true ∧ d.toLower = c

theorem smallOf_ofNat : ∀ n < 0x80, (Char.ofNat n).isLower = true →
    SmallOf (Char.ofNat n) (Char.ofNat n) ∧ SmallOf (Char.ofNat n).toUpper (Char.ofNat n) := by
  unfold SmallOf
  decide +kernel

theorem smallOf_of_isLower {c : Char} (h : c.isLower = true) : SmallOf c c ∧ SmallOf c.toUpper c := by
  have hascii := Text.toNat_lt_of_isAlpha (c := c) (by rw [Char.isAlpha, h, Bool.or_true])
  have hc := smallOf_ofNat c.toNat hascii
  rw [Char.ofNat_toNat] at hc
  exact hc h

theorem lettered_of_forall₂ (h : List.Forall₂ SmallOf s t) : Lettered s ∧ toLower s = t := by
  have hs : Lettered s := by
    induction h with
    | nil => exact List.forall_mem_nil _
    | cons hd _ ih => exact List.forall_mem_cons.mpr ⟨hd.1, ih⟩
  refine ⟨hs, ?_⟩
  rw [hs.toLower_eq]
  clear hs
  induction h with
  | nil => rfl
  | cons hd _ ih => rw [List.map_cons, hd.2, ih]

/-- A text of small letters is only put into another case. -/
theorem lettered_matchCase (hs : ∀ c ∈ s, c.isLower = true) (t : List Char) :
    Lettered (matchCase s t) ∧ toLower (matchCase s t) = s := by
  have hsame : ∀ {r : List Char}, (∀ c ∈ r, c.isLower = true) → List.Forall₂ SmallOf r r :=
    fun h => List.forall₂_same.mpr fun c hc => (smallOf_of_isLower (h c hc)).1
  have hupper : ∀ {c : Char}, c.isLower = true → Text.upperOf c = [c.toUpper] := fun h =>
    if_pos (Text.toNat_lt_of_isAlpha (by rw [Char.isAlpha, h, Bool.or_true]))
  apply lettered_of_forall₂
  unfold matchCase
  split
  · exact hsame hs
  · split
    · induction s with
      | nil => exact .nil
      | cons c s ih =>
          obtain ⟨hc, hrest⟩ := List.forall_mem_cons.mp hs
          rw [Text.toUpper, List.flatMap_cons, hupper hc]
          exact .cons (smallOf_of_isLower hc).2 (ih hrest)
    · split
      · split
        · exact .nil
        · obtain ⟨hc, hrest⟩ := List.forall_mem_cons.mp hs
          rw [hupper hc]
          exact .cons (smallOf_of_isLower hc).2 (hsame hrest)
      · exact hsame hs

end Cases

section Words

variable {t stem : List Char}

theorem dropEnd_append {n : Nat} {xs ys : List Char} (h : n ≤ ys.length) :
    dropEnd n (xs ++ ys) = xs ++ dropEnd n ys := by
  have hlength : (xs ++ ys).length - n = xs.length + (ys.length - n) := by
    rw [List.length_append]
    omega
  rw [dropEnd, dropEnd, hlength, List.take_length_add_append]

theorem dropEnd_isPrefix (n : Nat) (s : List Char) : dropEnd n s <+: s :=
  List.take_prefix _ _

/-- What is left of an ending ends what is left of a word. -/
theorem dropEnd_suffix {n : Nat} {x s : List Char} (h : x <:+ s) (hn : n ≤ x.length) :
    dropEnd n x <:+ dropEnd n s := by
  obtain ⟨front, rfl⟩ := h
  rw [dropEnd_append hn]
  exact List.suffix_append _ _

theorem toLower_dropEnd (ht : Lettered t) (n : Nat) :
    toLower (dropEnd n t) = dropEnd n (toLower t) := by
  rw [(ht.of_prefix (dropEnd_isPrefix n t)).toLower_eq, ht.toLower_eq, dropEnd, dropEnd,
    List.map_take, List.length_map]

/-- An irregular plural becomes the singular in the table. -/
theorem singularWord_of_mem {e : String × String} (he : e ∈ irregularPlurals)
    (ht : toLower t = e.1.toList) : singularWord [] t = matchCase e.2.toList t := by
  simp only [singularWord, List.lookup_nil, ht, String.ofList_toList, lookup_irregularPlurals e he]

/-- No irregular plural. -/
def Regular (t : List Char) : Prop := ∀ e ∈ irregularPlurals, toLower t ≠ e.1.toList

theorem singularWord_of_regular (ht : Regular t) : singularWord [] t =
    if invariants.contains (String.ofList (toLower t)) then t else singularByEnding t (toLower t) := by
  have hlookup : irregularPlurals.lookup (String.ofList (toLower t)) = none := by
    rw [lookup_eq_none_iff]
    intro hmem
    obtain ⟨e, he, heq⟩ := List.mem_map.mp hmem
    exact ht e he (by rw [heq, String.toList_ofList])
  simp only [singularWord, List.lookup_nil, hlookup]

end Words

section Endings

variable {t : List Char}

theorem longEnding_apart : ∀ x ∈ longEndings,
    ['s'] <:+ x ∧ EndsApart ['s', 's'] x ∧ EndsApart ['i', 's'] x := by
  decide

theorem length_plural : ∀ e ∈ irregularPlurals, 1 ≤ e.1.toList.length := by
  decide

theorem mem_wordEndings_of_plural {e : String × String} (he : e ∈ irregularPlurals) :
    e.1.toList ∈ wordEndings :=
  List.mem_append_left _ (List.mem_append_left _ (List.mem_map_of_mem (f := (·.1.toList)) he))

theorem mem_wordEndings_of_invariant {v : String} (hv : v ∈ invariants) :
    v.toList ∈ wordEndings :=
  List.mem_append_left _ (List.mem_append_right _ (List.mem_map_of_mem hv))

theorem mem_wordEndings_of_longEnding {x : List Char} (hx : x ∈ longEndings) : x ∈ wordEndings :=
  List.mem_append_right _ hx

theorem toLower_letter : ∀ n < 0x80, (Char.ofNat n).isAlpha = true →
    (Char.ofNat n).toLower.isAlpha = true := by
  decide +kernel

theorem lettered_toLower (ht : Lettered t) : Lettered (toLower t) := by
  rw [ht.toLower_eq]
  intro c hc
  obtain ⟨d, hd, rfl⟩ := List.mem_map.mp hc
  have hletter := toLower_letter d.toNat (Text.toNat_lt_of_isAlpha (ht d hd))
  rw [Char.ofNat_toNat] at hletter
  exact hletter (ht d hd)

theorem chomp_toLower (ht : Lettered t) : chomp (toLower t) = toLower t :=
  if_neg fun h => (lettered_toLower ht).notMem (by decide) (List.mem_of_getLast? h)

/-- Without a longer ending, a single `s` is dropped. -/
theorem singularByEnding_of_short (ht : Lettered t) (h : ∀ x ∈ longEndings, ¬ x <:+ toLower t) :
    singularByEnding t (toLower t) =
      if ['s'] <:+ toLower t ∧ ¬ ['s', 's'] <:+ toLower t ∧ 1 < t.length then dropEnd 1 t
      else t := by
  have hies : ¬ ['i', 'e', 's'] <:+ toLower t := h _ List.mem_cons_self
  have hsibilant : (sibilantEndings.any fun x => x.isSuffixOf (toLower t)) = false := by
    rw [List.any_eq_false]
    intro x hx
    rw [List.isSuffixOf_iff_suffix]
    exact h x (List.mem_cons_of_mem _ hx)
  simp only [singularByEnding, chomp_toLower ht, List.isSuffixOf_iff_suffix, hies, false_and,
    hsibilant, Bool.false_eq_true, if_false, ht.length_toLower]

/-- How a word that is in no table becomes its singular. -/
theorem singularByEnding_cases (ht : Lettered t) :
    (∃ y, Lettered [y] ∧ toLower [y] = ['y'] ∧
      singularByEnding t (toLower t) = dropEnd 3 t ++ [y]) ∨
    (∃ x ∈ sibilantEndings, x <:+ toLower t ∧ singularByEnding t (toLower t) = dropEnd 2 t) ∨
    (['s'] <:+ toLower t ∧ ¬ ['s', 's'] <:+ toLower t ∧ 1 < t.length ∧
      singularByEnding t (toLower t) = dropEnd 1 t) ∨
    singularByEnding t (toLower t) = t := by
  simp only [singularByEnding, chomp_toLower ht, List.isSuffixOf_iff_suffix, List.any_eq_true,
    ht.length_toLower]
  split
  · left
    split
    · exact ⟨'Y', by decide, by decide, rfl⟩
    · exact ⟨'y', by decide, by decide, rfl⟩
  · right
    split
    · rename_i h
      obtain ⟨x, hx, hsuffix⟩ := h
      exact .inl ⟨x, hx, hsuffix, rfl⟩
    · right
      split
      · rename_i h
        exact .inl ⟨h.1, h.2.1, h.2.2, rfl⟩
      · exact .inr rfl

end Endings

section Results

variable {r w before : List Char}

/-- A name is left alone when its inflected part is no irregular plural and does not end in a
single `s`. -/
theorem singularize_eq_self (hr : Lettered r) (hregular : Regular (inflected r))
    (hend : ['s'] <:+ toLower (inflected r) → ['s', 's'] <:+ toLower (inflected r)) :
    singularize [] r = r := by
  have hletters := hr.of_suffix (inflected_suffix r)
  have hshort : ∀ x ∈ longEndings, ¬ x <:+ toLower (inflected r) := by
    intro x hx hsuffix
    obtain ⟨hs, hapart, -⟩ := longEnding_apart x hx
    exact hapart.not_suffix (hend (hs.trans hsuffix)) hsuffix
  rw [singularize_eq_self_iff (hr.notMem (by decide)), singularWord_of_regular hregular,
    singularByEnding_of_short hletters hshort, ite_eq_left_iff]
  exact fun _ => if_neg fun h => h.2.1 (hend h.1)

theorem toLower_inflected_suffix (hr : Lettered r) : toLower (inflected r) <:+ toLower r :=
  hr.toLower_suffix (inflected_suffix r)

/-- A short ending of a name is one of its inflected part as well. -/
theorem suffix_inflected {x : List Char} (hr : Lettered r) (hx : x <:+ toLower r)
    (hlength : x.length ≤ 2) (hr2 : 2 ≤ r.length) : x <:+ toLower (inflected r) := by
  refine List.suffix_of_suffix_length_le hx (toLower_inflected_suffix hr) ?_
  rw [(hr.of_suffix (inflected_suffix r)).length_toLower]
  exact hlength.trans (length_inflected hr2)

/-- A name whose inflected part is an irregular plural with a singular in `s`. -/
def SingularInS (w : List Char) : Prop :=
  ∃ e ∈ irregularPlurals, toLower (inflected w) = e.1.toList ∧ ['s'] <:+ e.2.toList

instance (w : List Char) : Decidable (SingularInS w) :=
  inferInstanceAs (Decidable (∃ e ∈ irregularPlurals, _ ∧ _))

/-- A name with an `s` behind an irregular plural that does not end in one. -/
def SecondPlural (w : List Char) : Prop :=
  ['s'] <:+ toLower w ∧ ∃ e ∈ irregularPlurals,
    toLower (inflected (dropEnd 1 w)) = e.1.toList ∧ ¬ ['s'] <:+ e.1.toList

instance (w : List Char) : Decidable (SecondPlural w) :=
  inferInstanceAs (Decidable (_ ∧ ∃ e ∈ irregularPlurals, _ ∧ _))

/-- The name with an irregular singular at its end. -/
theorem lettered_append_matchCase {e : String × String} (he : e ∈ irregularPlurals)
    (hbefore : Lettered before) (t : List Char) :
    Lettered (before ++ matchCase e.2.toList t) ∧
      e.2.toList <:+ toLower (before ++ matchCase e.2.toList t) ∧
      2 ≤ (before ++ matchCase e.2.toList t).length := by
  obtain ⟨hsmall, hlength⟩ := small_singular e he
  obtain ⟨hmatch, hlower⟩ := lettered_matchCase hsmall t
  refine ⟨hbefore.append hmatch, ?_, ?_⟩
  · rw [hbefore.toLower_append hmatch, hlower]
    exact List.suffix_append _ _
  · rw [List.length_append, ← hmatch.length_toLower, hlower]
    omega

/-- No irregular plural ends a text that an irregular singular ends. -/
theorem regular_inflected {e : String × String} (he : e ∈ irregularPlurals) (hr : Lettered r)
    (h : e.2.toList <:+ toLower r) : Regular (inflected r) := fun e' he' heq =>
  (plural_apart_singular e' he' e he).not_suffix h (heq ▸ toLower_inflected_suffix hr)

theorem dropEnd_one_ne {t : List Char} (ht : 1 ≤ t.length) : dropEnd 1 t ≠ t := by
  intro h
  have hlength := congrArg List.length h
  rw [dropEnd, List.length_take] at hlength
  omega

/-- A name in a single `s` loses it when no table has its inflected part and no longer ending is
there. -/
theorem singularize_eq_dropEnd (hr : Lettered r) (hlength : 2 ≤ r.length)
    (hregular : Regular (inflected r)) (hinvariant : ∀ v ∈ invariants, ¬ v.toList <:+ toLower r)
    (hshort : ∀ x ∈ longEndings, ¬ x <:+ toLower r) (hs : ['s'] <:+ toLower r)
    (hss : ¬ ['s', 's'] <:+ toLower r) : singularize [] r = dropEnd 1 r := by
  have hsuffix := toLower_inflected_suffix hr
  have hnone : ¬ invariants.contains (String.ofList (toLower (inflected r))) = true := by
    rw [List.contains_iff_mem]
    refine fun hmem => hinvariant _ hmem ?_
    rwa [String.toList_ofList]
  have hdropped : ['s'] <:+ toLower (inflected r) ∧ ¬ ['s', 's'] <:+ toLower (inflected r) ∧
      1 < (inflected r).length :=
    ⟨suffix_inflected hr hs (by decide) hlength, fun h => hss (h.trans hsuffix),
      length_inflected hlength⟩
  obtain ⟨before, hparts, hword⟩ :=
    exists_singularize_eq [] (hr.notMem (by decide))
  rw [hword, singularWord_of_regular hregular, if_neg hnone,
    singularByEnding_of_short (hr.of_suffix (inflected_suffix r))
      fun x hx h => hshort x hx (h.trans hsuffix),
    if_pos hdropped, ← dropEnd_append (Nat.le_of_lt hdropped.2.2), hparts]

/-- A singular in `is` is taken for a plural. -/
theorem singularize_ne_of_singularInS (hw : Lettered w) (h : SingularInS w) :
    singularize [] (singularize [] w) ≠ singularize [] w := by
  obtain ⟨e, he, hplural, hs⟩ := h
  obtain ⟨before, hparts, hword⟩ :=
    exists_singularize_eq [] (hw.notMem (by decide))
  have hbefore : Lettered before := hw.of_prefix (hparts ▸ List.prefix_append _ _)
  obtain ⟨hr, hend, hlength⟩ := lettered_append_matchCase he hbefore (inflected w)
  rw [hword, singularWord_of_mem he hplural]
  generalize before ++ matchCase e.2.toList (inflected w) = r at hr hend hlength
  obtain ⟨his, hinvariants⟩ := singular_ending e he hs
  have hsuffix : ['i', 's'] <:+ toLower r := his.trans hend
  rw [singularize_eq_dropEnd hr hlength (regular_inflected he hr hend)
    (fun v hv => (hinvariants v hv).not_suffix hend)
    (fun x hx => (longEnding_apart x hx).2.2.not_suffix hsuffix)
    (List.IsSuffix.trans (by decide) hsuffix)
    (EndsApart.not_suffix (x := ['i', 's']) (by decide) hsuffix)]
  exact dropEnd_one_ne (Nat.le_of_lt hlength)

theorem toLower_eq_concat (hw : Lettered w) (h : ['s'] <:+ toLower w) :
    toLower w = toLower (dropEnd 1 w) ++ ['s'] := by
  obtain ⟨front, hfront⟩ := h
  rw [toLower_dropEnd hw, ← hfront, dropEnd_append (Nat.le_refl 1)]
  exact congrArg (· ++ ['s']) (List.append_nil front).symm

/-- Without its `s` a second plural is the first one. -/
theorem singularize_of_secondPlural (hw : Lettered w) (h : SecondPlural w) :
    singularize [] w = dropEnd 1 w := by
  obtain ⟨hlast, e, he, hplural, hs⟩ := h
  have hlower := toLower_eq_concat hw hlast
  have hfront := hw.of_prefix (dropEnd_isPrefix 1 w)
  have hend : e.1.toList <:+ toLower (dropEnd 1 w) := hplural ▸ toLower_inflected_suffix hfront
  have hsingle : ¬ ['s'] <:+ toLower (dropEnd 1 w) := fun h =>
    hs (List.suffix_of_suffix_length_le h hend (length_plural e he))
  have hlength : 2 ≤ w.length := by
    have hlong := (length_plural e he).trans hend.length_le
    rw [← hw.length_toLower, hlower, List.length_append, List.length_singleton]
    exact Nat.succ_le_succ hlong
  have hnone : ∀ x ∈ wordEndings, ¬ x <:+ toLower w := by
    intro x hx hending
    rw [hlower, List.suffix_concat_iff] at hending
    rcases hending with rfl | ⟨y, rfl, hy⟩
    · exact absurd hx (by decide)
    · have hapart := ending_apart_plural _ hx (List.suffix_append _ _) e he hs
      rw [List.dropLast_concat] at hapart
      exact hapart.not_suffix hend hy
  have hss : ¬ ['s'] ++ ['s'] <:+ toLower w := by
    rw [hlower, List.suffix_append_self_iff]
    exact hsingle
  exact singularize_eq_dropEnd hw hlength
    (fun e' he' heq => hnone _ (mem_wordEndings_of_plural he') (heq ▸ toLower_inflected_suffix hw))
    (fun v hv => hnone _ (mem_wordEndings_of_invariant hv))
    (fun x hx => hnone x (mem_wordEndings_of_longEnding hx)) hlast hss

theorem singularize_ne_of_secondPlural (hw : Lettered w) (h : SecondPlural w) :
    singularize [] (singularize [] w) ≠ singularize [] w := by
  rw [singularize_of_secondPlural hw h]
  obtain ⟨-, e, he, hplural, -⟩ := h
  have hfront := hw.of_prefix (dropEnd_isPrefix 1 w)
  have hsmall := (lettered_matchCase (small_singular e he).1 (inflected (dropEnd 1 w))).2
  rw [Ne, singularize_eq_self_iff (hfront.notMem (by decide)), singularWord_of_mem he hplural]
  intro heq
  rw [heq, hplural] at hsmall
  exact (plural_apart_singular e he e he).1 (hsmall ▸ List.suffix_rfl)

example : singularize [] "oldPeoples".toList = "oldPeople".toList ∧
    singularize [] "oldPeople".toList = "oldPerson".toList := by
  decide +kernel

/-- What an ending leaves of a word is left alone. -/
theorem singularize_eq_self_of_stem (hr : Lettered r) {x : List Char} (hx : x ∈ stems)
    (hend : x <:+ toLower r) : singularize [] r = r := by
  obtain ⟨hs, hlength, hplurals⟩ := stem_apart x hx
  refine singularize_eq_self hr (fun e he heq => ?_) fun hsingle => ?_
  · exact (hplurals e he).not_suffix hend (heq ▸ toLower_inflected_suffix hr)
  · rcases hs with rfl | hapart
    · have hlong := hend.length_le
      rw [hr.length_toLower] at hlong
      exact suffix_inflected hr hend hlength hlong
    · exact absurd (hsingle.trans (toLower_inflected_suffix hr)) (hapart.not_suffix hend)

/-- Without the `s` of a plural by the last ending, only a second plural is changed again. -/
theorem singularize_eq_self_of_dropped (hw : Lettered w) (hsecond : ¬ SecondPlural w)
    (hs : ['s'] <:+ toLower (inflected w)) (hss : ¬ ['s', 's'] <:+ toLower (inflected w))
    (hlength : 2 ≤ w.length) : singularize [] (dropEnd 1 w) = dropEnd 1 w := by
  have hlast := hs.trans (toLower_inflected_suffix hw)
  have hfront := hw.of_prefix (dropEnd_isPrefix 1 w)
  have hsuffix := toLower_inflected_suffix hfront
  have hsingle : ¬ ['s'] <:+ toLower (dropEnd 1 w) := by
    intro h
    have hboth : ['s'] ++ ['s'] <:+ toLower w :=
      toLower_eq_concat hw hlast ▸ List.suffix_append_self_iff.mpr h
    exact hss (suffix_inflected hw hboth (Nat.le_refl 2) hlength)
  refine singularize_eq_self hfront (fun e he heq => ?_) fun h => absurd (h.trans hsuffix) hsingle
  exact hsecond ⟨hlast, e, he, heq, fun h => hsingle (h.trans (heq ▸ hsuffix))⟩

/-- All other names in the singular are left alone. -/
theorem singularize_singularize_of (hw : Lettered w) (hsingular : ¬ SingularInS w)
    (hsecond : ¬ SecondPlural w) : singularize [] (singularize [] w) = singularize [] w := by
  have hline := hw.notMem (c := '\n') (by decide)
  obtain ⟨before, hparts, hword⟩ := exists_singularize_eq [] hline
  have hbefore : Lettered before := hw.of_prefix (hparts ▸ List.prefix_append _ _)
  have hletters := hw.of_suffix (inflected_suffix w)
  have hsame : singularWord [] (inflected w) = inflected w →
      singularize [] (singularize [] w) = singularize [] w := fun h => by
    rw [(singularize_eq_self_iff hline).mpr h, (singularize_eq_self_iff hline).mpr h]
  by_cases hregular : Regular (inflected w)
  · rw [singularWord_of_regular hregular] at hword hsame
    split at hword
    · rename_i hinvariant
      exact hsame (if_pos hinvariant)
    · rename_i hinvariant
      rw [if_neg hinvariant] at hsame
      obtain ⟨y, hy, hlower, hform⟩ | ⟨x, hx, hsuffix, hform⟩ | ⟨hs, hss, hlength, hform⟩ | hform :=
        singularByEnding_cases hletters
      · rw [hform, ← List.append_assoc] at hword
        have hstem : Lettered (before ++ dropEnd 3 (inflected w)) :=
          hbefore.append (hletters.of_prefix (dropEnd_isPrefix 3 _))
        rw [hword]
        refine singularize_eq_self_of_stem (hstem.append hy) List.mem_cons_self ?_
        rw [hstem.toLower_append hy, hlower]
        exact List.suffix_append _ _
      · have htwo : 2 ≤ x.length := (by decide : ∀ x ∈ sibilantEndings, 2 ≤ x.length) x hx
        have hlong := htwo.trans hsuffix.length_le
        rw [hletters.length_toLower] at hlong
        rw [hform, ← dropEnd_append hlong, hparts] at hword
        rw [hword]
        refine singularize_eq_self_of_stem (hw.of_prefix (dropEnd_isPrefix 2 w))
          (List.mem_cons_of_mem _ (List.mem_map_of_mem hx)) ?_
        rw [toLower_dropEnd hw]
        exact dropEnd_suffix (hsuffix.trans (toLower_inflected_suffix hw)) htwo
      · rw [hform, ← dropEnd_append (Nat.le_of_lt hlength), hparts] at hword
        rw [hword]
        exact singularize_eq_self_of_dropped hw hsecond hs hss
          (Nat.le_trans hlength (inflected_suffix w).length_le)
      · exact hsame hform
  · obtain ⟨e, he, hplural⟩ : ∃ e ∈ irregularPlurals, toLower (inflected w) = e.1.toList := by
      by_contra h
      exact hregular fun e he heq => h ⟨e, he, heq⟩
    obtain ⟨hr, hend, -⟩ := lettered_append_matchCase he hbefore (inflected w)
    rw [hword, singularWord_of_mem he hplural]
    refine singularize_eq_self hr (regular_inflected he hr hend) fun h => ?_
    refine absurd ⟨e, he, hplural, ?_⟩ hsingular
    exact List.suffix_of_suffix_length_le (h.trans (toLower_inflected_suffix hr)) hend
      (Nat.le_of_lt (small_singular e he).2)

end Results

section Main

variable {w : List Char}

/-- Which singulars of names of letters are left alone: all but the irregular singulars in `s`,
and the irregular plurals behind which a second `s` has been dropped. -/
theorem singularize_singularize_iff (hw : Lettered w) :
    singularize [] (singularize [] w) = singularize [] w ↔ ¬ SingularInS w ∧ ¬ SecondPlural w := by
  constructor
  · exact fun h => ⟨fun hs => singularize_ne_of_singularInS hw hs h,
      fun hs => singularize_ne_of_secondPlural hw hs h⟩
  · exact fun h => singularize_singularize_of hw h.1 h.2

theorem singularize_singularize_iff_categories :
    Lettered "orderCategories".toList ∧
      singularize [] (singularize [] "orderCategories".toList) =
        singularize [] "orderCategories".toList := by
  have hw : Lettered "orderCategories".toList := by decide
  have hsingular : ¬ SingularInS "orderCategories".toList := by decide +kernel
  have hsecond : ¬ SecondPlural "orderCategories".toList := by decide +kernel
  exact ⟨hw, (singularize_singularize_iff hw).mpr ⟨hsingular, hsecond⟩⟩

/-- The singular `analysis` loses its last letter. -/
theorem analysis_not_left_alone :
    Lettered "analyses".toList ∧ singularize [] "analyses".toList = "analysis".toList ∧
      singularize [] (singularize [] "analyses".toList) = "analysi".toList ∧
      singularize [] (singularize [] "analyses".toList) ≠ singularize [] "analyses".toList := by
  decide +kernel

end Main

end Name

end TypeSketch
