import TypeSketch.Proofs.Text.Digits

/-!
# Shown text reads back

`readShown` reads one character from a text as messages show it.  Main statement: a shown text ends
where its quote stands alone, so what is shown and what follows it can be told apart.
-/

namespace TypeSketch.Text

/-- The number of digits behind a backslash and this character. -/
def numberedWidth (c : Char) : Option Nat :=
  if c = 'x' then some 2 else if c = 'u' then some 4 else if c = 'U' then some 8 else none

/-- The first character of a text between the quotes of a message, and what follows it. -/
def readShown : List Char → Option (Char × List Char)
  | [] => none
  | [c] => some (c, [])
  | c :: d :: rest =>
      if c = '\\' then
        match numberedWidth d with
        | some width => some (Char.ofNat (natOfHexDigits (rest.take width)), rest.drop width)
        | none =>
            some (if d = 'n' then '\n' else if d = 'r' then '\r' else if d = 't' then '\t' else d,
              rest)
      else some (c, d :: rest)

theorem readShown_cons {c : Char} (hc : c ≠ '\\') (rest : List Char) :
    readShown (c :: rest) = some (c, rest) := by
  cases rest with
  | nil => rfl
  | cons d rest => rw [readShown, if_neg hc]

theorem readShown_numbered (c : Char) (rest : List Char) :
    readShown (numbered c ++ rest) = some (c, rest) := by
  have hread : ∀ (d : Char) (width : Nat), numberedWidth d = some width → 0 < width →
      c.toNat < 16 ^ width →
      readShown ('\\' :: d :: hexText width c.toNat ++ rest) = some (c, rest) := by
    intro d width hd hpos hlt
    have hlen := length_hexText hpos hlt
    have htake : (hexText width c.toNat ++ rest).take width = hexText width c.toNat := by
      rw [List.take_append_of_le_length (Nat.le_of_eq hlen.symm), List.take_of_length_le]
      exact Nat.le_of_eq hlen
    have hdrop : (hexText width c.toNat ++ rest).drop width = rest := by
      rw [List.drop_append_of_le_length (Nat.le_of_eq hlen.symm),
        List.drop_of_length_le (Nat.le_of_eq hlen), List.nil_append]
    rw [List.cons_append, List.cons_append, readShown, if_pos rfl, hd]
    dsimp only
    rw [htake, hdrop, natOfHexDigits_hexText, Char.ofNat_toNat]
  rw [numbered]
  split
  next hlt => exact hread 'x' 2 rfl (by decide) (by simpa using hlt)
  next =>
    split
    next hlt => exact hread 'u' 4 rfl (by decide) (by simpa using hlt)
    next =>
      refine hread 'U' 8 rfl (by decide) ?_
      have hmax : c.toNat < 0x110000 := by
        rcases c.valid with h | h
        · exact Nat.lt_trans h (by decide)
        · exact h.2
      exact Nat.lt_trans hmax (by decide)

/-- The quotes that stand around shown text. -/
def IsQuote (quote : Char) : Prop := quote = '\'' ∨ quote = '"'

theorem isQuote_shownQuote (s : List Char) : IsQuote (shownQuote s) := by
  rw [shownQuote]
  split
  · exact Or.inr rfl
  · exact Or.inl rfl

theorem readShown_shownChar {quote : Char} (hq : IsQuote quote) (c : Char) (rest : List Char) :
    readShown (shownChar quote c ++ rest) = some (c, rest) := by
  rw [shownChar]
  by_cases hself : c = quote ∨ c = '\\'
  · rw [if_pos hself]
    rcases hself with rfl | rfl
    · rcases hq with rfl | rfl <;> rfl
    · rfl
  rw [if_neg hself]
  by_cases hn : c = '\n'
  · rw [if_pos hn, hn]
    rfl
  rw [if_neg hn]
  by_cases hr : c = '\r'
  · rw [if_pos hr, hr]
    rfl
  rw [if_neg hr]
  by_cases ht : c = '\t'
  · rw [if_pos ht, ht]
    rfl
  rw [if_neg ht]
  by_cases hp : isPrintable c = true
  · rw [if_pos hp]
    exact readShown_cons (fun h => hself (Or.inr h)) rest
  · rw [if_neg hp]
    exact readShown_numbered c rest

/-- A shown character does not start with the quote. -/
theorem shownChar_head {quote : Char} (hq : IsQuote quote) (c : Char) :
    ∃ d rest, shownChar quote c = d :: rest ∧ d ≠ quote := by
  have hback : '\\' ≠ quote := by
    rcases hq with rfl | rfl <;> decide
  rw [shownChar]
  split
  next => exact ⟨'\\', _, rfl, hback⟩
  next hself =>
    split
    next => exact ⟨'\\', _, rfl, hback⟩
    next =>
      split
      next => exact ⟨'\\', _, rfl, hback⟩
      next =>
        split
        next => exact ⟨'\\', _, rfl, hback⟩
        next =>
          split
          next => exact ⟨c, [], rfl, fun h => hself (Or.inl h)⟩
          next =>
            rw [numbered]
            split
            next => exact ⟨'\\', _, rfl, hback⟩
            next => split <;> exact ⟨'\\', _, rfl, hback⟩

theorem shownChars_append_inj {quote : Char} (hq : IsQuote quote) {s t r u : List Char}
    (h : s.flatMap (shownChar quote) ++ quote :: r = t.flatMap (shownChar quote) ++ quote :: u) :
    s = t ∧ r = u := by
  induction s generalizing t with
  | nil =>
      cases t with
      | nil => exact ⟨rfl, (List.cons.inj h).2⟩
      | cons d t =>
          obtain ⟨e, rest, hhead, hne⟩ := shownChar_head hq d
          rw [List.flatMap_cons, hhead] at h
          exact absurd (List.cons.inj h).1.symm hne
  | cons c s ih =>
      cases t with
      | nil =>
          obtain ⟨e, rest, hhead, hne⟩ := shownChar_head hq c
          rw [List.flatMap_cons, hhead] at h
          exact absurd (List.cons.inj h).1 hne
      | cons d t =>
          rw [List.flatMap_cons, List.flatMap_cons, List.append_assoc, List.append_assoc] at h
          have hread := congrArg readShown h
          rw [readShown_shownChar hq, readShown_shownChar hq] at hread
          obtain ⟨hcd, hrest⟩ := Prod.mk.inj (Option.some.inj hread)
          obtain ⟨hst, hru⟩ := ih hrest
          exact ⟨by rw [hcd, hst], hru⟩

/-- Different shown texts are told apart, whatever follows them. -/
theorem shown_append_inj {s t r u : List Char} (h : shown s ++ r = shown t ++ u) :
    s = t ∧ r = u := by
  simp only [shown, List.cons_append, List.append_assoc] at h
  obtain ⟨hquote, hrest⟩ := List.cons.inj h
  rw [← hquote] at hrest
  exact shownChars_append_inj (isQuote_shownQuote s) hrest

end TypeSketch.Text
