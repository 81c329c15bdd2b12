import TypeSketch.Proofs.Declaration.Words

/-!
# Field names read back

A reader takes the name of a field from the text in front of it: a word, or a text in quotes in
which a backslash makes the next character literal and a line may not end.  Main statement:
`readKey_printedKey`, a name is read back if and only if there is no line break in it.
-/

namespace TypeSketch

namespace Text

/-- What ends a line. -/
def isLineBreak (c : Char) : Bool :=
  c = '\n' || c = '\r'

/-- A text on a single line. -/
def Unbroken (t : List Char) : Prop :=
  ∀ c ∈ t, isLineBreak c = false

instance (t : List Char) : Decidable (Unbroken t) :=
  inferInstanceAs (Decidable (∀ c ∈ t, isLineBreak c = false))

section Unbroken

variable {s t : List Char}

theorem unbroken_nil : Unbroken [] := fun _ hc => absurd hc List.not_mem_nil

theorem unbroken_cons {c : Char} : Unbroken (c :: t) ↔ isLineBreak c = false ∧ Unbroken t :=
  List.forall_mem_cons

theorem unbroken_append : Unbroken (s ++ t) ↔ Unbroken s ∧ Unbroken t :=
  List.forall_mem_append

/-- A text of characters of a class that has no line breaks. -/
theorem unbroken_of_forall {p : Char → Bool} (hfeed : p '\n' = false) (hreturn : p '\r' = false)
    (h : ∀ c ∈ t, p c = true) : Unbroken t := by
  intro c hc
  rw [Bool.eq_false_iff]
  intro hbreak
  rw [isLineBreak, Bool.or_eq_true, decide_eq_true_eq, decide_eq_true_eq] at hbreak
  rcases hbreak with rfl | rfl
  · exact Bool.noConfusion (hfeed.symm.trans (h _ hc))
  · exact Bool.noConfusion (hreturn.symm.trans (h _ hc))

end Unbroken

/-- The text up to the quote that ends it, and what stands behind that quote. -/
def readQuoted (quote : Char) : List Char → Option (List Char × List Char)
  | [] => none
  | '\\' :: c :: rest => (readQuoted quote rest).map fun p => (c :: p.1, p.2)
  | c :: rest =>
      if c = quote then some ([], rest)
      else if isLineBreak c then none
      else (readQuoted quote rest).map fun p => (c :: p.1, p.2)

theorem readQuoted_cons {quote c : Char} (hc : c ≠ '\\') (rest : List Char) :
    readQuoted quote (c :: rest) =
      if c = quote then some ([], rest)
      else if isLineBreak c then none
      else (readQuoted quote rest).map fun p => (c :: p.1, p.2) := by
  rw [readQuoted]
  rintro d _ heq
  exact absurd heq hc

/-- A text in quotes is read back if it stands on a single line, and refused otherwise. -/
theorem readQuoted_enclosedChars {quote : Char} (hquote : quote ≠ '\\')
    (hbreak : isLineBreak quote = false) (s rest : List Char) :
    readQuoted quote (s.flatMap (enclosedChar quote) ++ quote :: rest) =
      if Unbroken s then some (s, rest) else none := by
  induction s with
  | nil =>
      rw [List.flatMap_nil, List.nil_append, readQuoted_cons hquote, if_pos rfl,
        if_pos unbroken_nil]
  | cons c s ih =>
      rw [List.flatMap_cons, List.append_assoc, enclosedChar]
      split
      · -- a character behind a backslash is no line break
        rename_i hescaped
        have hc : isLineBreak c = false := by
          rcases hescaped with rfl | rfl
          · exact hbreak
          · decide
        rw [List.cons_append, List.cons_append, List.nil_append, readQuoted, ih]
        by_cases hs : Unbroken s
        · rw [if_pos hs, if_pos (unbroken_cons.mpr ⟨hc, hs⟩), Option.map_some]
        · rw [if_neg hs, if_neg fun h => hs (unbroken_cons.mp h).2, Option.map_none]
      · rename_i hplain
        rw [not_or] at hplain
        rw [List.singleton_append, readQuoted_cons hplain.2, if_neg hplain.1, ih]
        cases hc : isLineBreak c with
        | true =>
            rw [if_pos rfl, if_neg]
            exact fun h => Bool.noConfusion (hc.symm.trans (unbroken_cons.mp h).1)
        | false =>
            by_cases hs : Unbroken s
            · rw [if_neg Bool.false_ne_true, if_pos hs, if_pos (unbroken_cons.mpr ⟨hc, hs⟩),
                Option.map_some]
            · rw [if_neg Bool.false_ne_true, if_neg hs, if_neg fun h => hs (unbroken_cons.mp h).2,
                Option.map_none]

end Text

namespace Name

open Text (Stops Unbroken isLineBreak readQuoted)

/-- The name at the start of a field, and what stands behind it. -/
def readKey : List Char → Option (List Char × List Char)
  | [] => none
  | c :: rest =>
      if c = '\'' ∨ c = '"' then readQuoted c rest
      else if isStart c then some ((c :: rest).takeWhile isPart, (c :: rest).dropWhile isPart)
      else none

theorem unbroken_of_isWord {s : List Char} (h : isWord s = true) : Unbroken s :=
  Text.unbroken_of_forall (by decide) (by decide) (isPart_of_isWord h)

theorem readKey_quoted (style : QuoteStyle) (rest : List Char) :
    readKey (style.char :: rest) = readQuoted style.char rest := by
  cases style <;> rfl

/-- A word is read as far as it goes. -/
theorem readKey_word {s rest : List Char} (hs : isWord s = true) (hrest : Stops isPart rest) :
    readKey (s ++ rest) = some (s, rest) := by
  have hparts := isPart_of_isWord hs
  obtain ⟨c, t, rfl, hc, -⟩ := exists_eq_cons_of_isWord hs
  have hquote : ¬ (c = '\'' ∨ c = '"') := by
    rintro (rfl | rfl)
    · exact absurd hc (by decide)
    · exact absurd hc (by decide)
  rw [List.cons_append, readKey, if_neg hquote, if_pos hc, ← List.cons_append,
    List.takeWhile_append_of_pos hparts, List.dropWhile_append_of_pos hparts, hrest.takeWhile_eq,
    hrest.dropWhile_eq, List.append_nil]

/-- A field name is read back from its text if and only if there is no line break in it. -/
theorem readKey_printedKey (style : QuoteStyle) (s : List Char) {rest : List Char}
    (hrest : Stops isPart rest) :
    readKey (printedKey style.char s ++ rest) = some (s, rest) ↔ Unbroken s := by
  rw [printedKey]
  split
  · rename_i hs
    rw [isIdentifier, Bool.and_eq_true, chomp] at hs
    split at hs
    · -- the line feed behind a word is taken for no part of it
      rename_i hlast
      rw [← List.dropLast_append_getLast? '\n' hlast, List.append_assoc, List.singleton_append]
      constructor
      · intro h
        rw [readKey_word hs.1 (Text.stops_cons.mpr (by decide))] at h
        have hlength := congrArg List.length (Prod.mk.inj (Option.some.inj h)).1
        rw [List.length_append, List.length_singleton] at hlength
        omega
      · intro h
        exact absurd (h '\n' (List.mem_append_right _ (List.mem_singleton_self _))) (by decide)
    · exact ⟨fun _ => unbroken_of_isWord hs.1, fun _ => readKey_word hs.1 hrest⟩
  · have hquoted := Text.readQuoted_enclosedChars (Emission.quote_ne_backslash style)
      (by cases style <;> decide) s rest
    rw [Text.enclosed, List.cons_append, readKey_quoted, List.append_assoc]
    rw [List.singleton_append, hquoted]
    split
    · rename_i h
      exact ⟨fun _ => h, fun _ => rfl⟩
    · rename_i h
      constructor
      · intro h'
        cases h'
      · exact fun h' => absurd h' h

end Name

end TypeSketch
