import TypeSketch.Text.Quoted

/-!
# Texts told apart

Two texts with something behind them are told apart when what follows does not continue them.
Main statements: `run_append_inj` for runs of characters of a class, `enclosed_append_inj` for
text in quotes, and `separated_append_inj` for lists with separators.
-/

namespace TypeSketch.Text

/-- What follows does not start with a character of the class. -/
def Stops (p : Char → Bool) (rest : List Char) : Prop :=
  ∀ c ∈ rest.head?, p c = false

section Runs

variable {p q : Char → Bool}

theorem stops_nil : Stops p [] := by
  rintro c ⟨⟩

theorem stops_cons {c : Char} {rest : List Char} : Stops p (c :: rest) ↔ p c = false := by
  constructor
  · exact fun h => h c rfl
  · rintro h d ⟨⟩
    exact h

theorem Stops.mono {rest : List Char} (h : Stops q rest) (hsub : ∀ c, p c = true → q c = true) :
    Stops p rest := by
  intro c hc
  rw [Bool.eq_false_iff]
  exact fun hp => Bool.noConfusion ((hsub c hp).symm.trans (h c hc))

theorem Stops.takeWhile_eq {rest : List Char} (h : Stops p rest) : rest.takeWhile p = [] := by
  cases rest with
  | nil => rfl
  | cons c rest => rw [List.takeWhile_cons, stops_cons.mp h, if_neg Bool.false_ne_true]

theorem Stops.dropWhile_eq {rest : List Char} (h : Stops p rest) : rest.dropWhile p = rest := by
  cases rest with
  | nil => rfl
  | cons c rest => rw [List.dropWhile_cons, stops_cons.mp h, if_neg Bool.false_ne_true]

/-- A run ends where what follows does not continue it. -/
theorem run_append_inj {s t x y : List Char} (hs : ∀ c ∈ s, p c = true) (ht : ∀ c ∈ t, p c = true)
    (hx : Stops p x) (hy : Stops p y) (h : s ++ x = t ++ y) : s = t ∧ x = y := by
  induction s generalizing t with
  | nil =>
      cases t with
      | nil => exact ⟨rfl, h⟩
      | cons d t =>
          rw [List.nil_append] at h
          rw [h, List.cons_append, stops_cons, ht d List.mem_cons_self] at hx
          cases hx
  | cons c s ih =>
      cases t with
      | nil =>
          rw [List.nil_append] at h
          rw [← h, List.cons_append, stops_cons, hs c List.mem_cons_self] at hy
          cases hy
      | cons d t =>
          obtain ⟨rfl, hrest⟩ := List.cons.inj h
          obtain ⟨rfl, hxy⟩ := ih (fun a ha => hs a (List.mem_cons_of_mem c ha))
            (fun a ha => ht a (List.mem_cons_of_mem c ha)) hrest
          exact ⟨rfl, hxy⟩

end Runs

section Quotes

variable {quote : Char} (hquote : quote ≠ '\\')

include hquote

/-- A character between quotes does not start like the quote at the end. -/
theorem enclosedChar_append_ne (c : Char) (x y : List Char) :
    enclosedChar quote c ++ x ≠ quote :: y := by
  intro h
  rw [enclosedChar] at h
  split at h
  · exact hquote (List.cons.inj h).1.symm
  · rename_i hplain
    exact hplain (.inl (List.cons.inj h).1)

omit hquote in
theorem enclosedChar_append_inj {c d : Char} {x y : List Char}
    (h : enclosedChar quote c ++ x = enclosedChar quote d ++ y) : c = d ∧ x = y := by
  rw [enclosedChar, enclosedChar] at h
  split at h <;> split at h
  · have hrest := List.cons.inj (List.cons.inj h).2
    exact hrest
  · rename_i hplain
    exact absurd (.inr (List.cons.inj h).1.symm) hplain
  · rename_i hplain _
    exact absurd (.inr (List.cons.inj h).1) hplain
  · exact List.cons.inj h

theorem enclosedChars_append_inj {s t x y : List Char}
    (h : s.flatMap (enclosedChar quote) ++ quote :: x =
      t.flatMap (enclosedChar quote) ++ quote :: y) : s = t ∧ x = y := by
  induction s generalizing t with
  | nil =>
      cases t with
      | nil => exact ⟨rfl, (List.cons.inj h).2⟩
      | cons d t =>
          rw [List.flatMap_cons, List.append_assoc] at h
          exact absurd h.symm (enclosedChar_append_ne hquote d _ _)
  | cons c s ih =>
      cases t with
      | nil =>
          rw [List.flatMap_cons, List.append_assoc] at h
          exact absurd h (enclosedChar_append_ne hquote c _ _)
      | cons d t =>
          rw [List.flatMap_cons, List.flatMap_cons, List.append_assoc, List.append_assoc] at h
          obtain ⟨rfl, hrest⟩ := enclosedChar_append_inj h
          obtain ⟨rfl, hxy⟩ := ih hrest
          exact ⟨rfl, hxy⟩

/-- Text in quotes is told apart, whatever follows. -/
theorem enclosed_append_inj {s t x y : List Char}
    (h : enclosed quote s ++ x = enclosed quote t ++ y) : s = t ∧ x = y := by
  rw [enclosed, enclosed, List.cons_append, List.cons_append, List.append_assoc,
    List.append_assoc] at h
  exact enclosedChars_append_inj hquote (List.cons.inj h).2

end Quotes

section Separators

/-- Texts with a separator between them. -/
def separated (separator : List Char) (texts : List (List Char)) : List Char :=
  (texts.intersperse separator).flatten

variable {α γ : Type} {code : α → List Char} {value : α → γ} {separator : List Char}
  {follows : List Char → Prop}

theorem separated_singleton (t : List Char) : separated separator [t] = t :=
  List.append_nil t

theorem separated_cons_cons (t u : List Char) (texts : List (List Char)) :
    separated separator (t :: u :: texts) = t ++ (separator ++ separated separator (u :: texts)) :=
  rfl

/-- The separator and what the first entry starts with stand in front of more entries. -/
theorem separated_cons_append (t : List Char) (texts : List (List Char)) (x : List Char) :
    ∃ u, separated separator (t :: texts) ++ x = t ++ u := by
  cases texts with
  | nil => exact ⟨x, by rw [separated_singleton]⟩
  | cons u texts => exact ⟨_, by rw [separated_cons_cons, List.append_assoc]⟩

/-- Each of the texts is found in the whole. -/
theorem infix_separated {t : List Char} {texts : List (List Char)} (h : t ∈ texts) :
    t <:+: separated separator texts := by
  induction texts with
  | nil => cases h
  | cons u texts ih =>
      cases texts with
      | nil =>
          have ht : t = separated separator [u] :=
            (List.mem_singleton.mp h).trans (separated_singleton u).symm
          exact ht ▸ List.infix_rfl
      | cons v texts =>
          rw [separated_cons_cons]
          rcases List.mem_cons.mp h with rfl | h
          · exact (List.prefix_append _ _).isInfix
          · have hrest := (ih h).trans (List.suffix_append separator _).isInfix
            exact hrest.trans (List.suffix_append _ _).isInfix

/-- Lists with separators are told apart when their entries are, whatever may follow an entry, and
when what stands behind the lists is not taken for one entry more. -/
theorem separated_append_inj (hseparator : ∀ u, follows (separator ++ u)) {x y : List Char}
    (hx : follows x) (hy : follows y) :
    ∀ {xs ys : List α},
    (∀ a ∈ xs, ∀ b ∈ ys, ∀ u v, follows u → follows v → code a ++ u = code b ++ v →
      value a = value b ∧ u = v) →
    (∀ b ∈ ys, ∀ u, x ≠ separator ++ (code b ++ u)) →
    (∀ a ∈ xs, ∀ u, y ≠ separator ++ (code a ++ u)) → xs ≠ [] → ys ≠ [] →
    separated separator (xs.map code) ++ x = separated separator (ys.map code) ++ y →
    xs.map value = ys.map value ∧ x = y
  | [], _, _, _, _, hne, _, _ => absurd rfl hne
  | _ :: _, [], _, _, _, _, hne, _ => absurd rfl hne
  | [a], [b], hinj, _, _, _, _, h => by
      rw [List.map_singleton, List.map_singleton, separated_singleton, separated_singleton] at h
      obtain ⟨hvalue, hrest⟩ := hinj a List.mem_cons_self b List.mem_cons_self x y hx hy h
      exact ⟨by rw [List.map_singleton, List.map_singleton, hvalue], hrest⟩
  | [a], b :: b' :: ys, hinj, hmore, _, _, _, h => by
      -- what stands behind the first list would be another entry
      rw [List.map_singleton, separated_singleton, List.map_cons, List.map_cons,
        separated_cons_cons, List.append_assoc, List.append_assoc] at h
      have hrest := (hinj a List.mem_cons_self b List.mem_cons_self _ _ hx (hseparator _) h).2
      obtain ⟨u, hu⟩ := separated_cons_append (code b') (ys.map code) y
      rw [hu] at hrest
      exact absurd hrest (hmore b' (by simp) u)
  | a :: a' :: xs, [b], hinj, _, hmore, _, _, h => by
      rw [List.map_singleton, separated_singleton, List.map_cons, List.map_cons,
        separated_cons_cons, List.append_assoc, List.append_assoc] at h
      have hrest := (hinj a List.mem_cons_self b List.mem_cons_self _ _ (hseparator _) hy h).2
      obtain ⟨u, hu⟩ := separated_cons_append (code a') (xs.map code) x
      rw [hu] at hrest
      exact absurd hrest.symm (hmore a' (by simp) u)
  | a :: a' :: xs, b :: b' :: ys, hinj, hmore, hmore', _, _, h => by
      rw [List.map_cons, List.map_cons, List.map_cons, List.map_cons, separated_cons_cons,
        separated_cons_cons, List.append_assoc, List.append_assoc, List.append_assoc,
        List.append_assoc] at h
      obtain ⟨hvalue, hrest⟩ := hinj a List.mem_cons_self b List.mem_cons_self _ _
        (hseparator _) (hseparator _) h
      have htail : ∀ c ∈ a' :: xs, ∀ d ∈ b' :: ys, ∀ u v, follows u → follows v →
          code c ++ u = code d ++ v → value c = value d ∧ u = v := fun c hc d hd =>
        hinj c (List.mem_cons_of_mem a hc) d (List.mem_cons_of_mem b hd)
      obtain ⟨hvalues, hxy⟩ := separated_append_inj hseparator hx hy htail
        (fun d hd => hmore d (List.mem_cons_of_mem b hd))
        (fun c hc => hmore' c (List.mem_cons_of_mem a hc)) (List.cons_ne_nil _ _)
        (List.cons_ne_nil _ _) (List.append_cancel_left hrest)
      exact ⟨by rw [List.map_cons, hvalue, hvalues, ← List.map_cons], hxy⟩

end Separators

end TypeSketch.Text
