import Mathlib.Logic.Function.Defs
import TypeSketch.Text.Quoted

/-!
# Text between quotes

A scanner that has passed a quote takes a backslash together with the character behind it and stops
at the next quote of the same kind.  Main statements: `scanQuoted_enclosedChars`, what stands
between the quotes is scanned as far as the second one, whatever follows, and
`unescaped_enclosedChars`, without the backslashes that escape it is the text that was quoted.
-/

namespace TypeSketch.Text

/-- The text up to the first quote without a backslash, and what stands behind that quote. -/
def scanQuoted (quote : Char) : List Char → Option (List Char × List Char)
  | [] => none
  | '\\' :: c :: rest => (scanQuoted quote rest).map fun p => ('\\' :: c :: p.1, p.2)
  | c :: rest =>
      if c = quote then some ([], rest)
      else (scanQuoted quote rest).map fun p => (c :: p.1, p.2)

/-- The text without the backslashes that escape a character. -/
def unescaped : List Char → List Char
  | [] => []
  | '\\' :: c :: rest => c :: unescaped rest
  | c :: rest => c :: unescaped rest

/-- The text with another one in place of a character, wherever that occurs. -/
def replaced (c : Char) (t s : List Char) : List Char :=
  s.flatMap fun d => if d = c then t else [d]

section Scanning

variable {quote c : Char}

theorem scanQuoted_cons (hc : c ≠ '\\') (rest : List Char) :
    scanQuoted quote (c :: rest) =
      if c = quote then some ([], rest)
      else (scanQuoted quote rest).map fun p => (c :: p.1, p.2) := by
  rw [scanQuoted]
  rintro d _ heq
  exact absurd heq hc

theorem unescaped_cons (hc : c ≠ '\\') (rest : List Char) :
    unescaped (c :: rest) = c :: unescaped rest := by
  rw [unescaped]
  rintro d _ heq
  exact absurd heq hc

/-- The scanner stops at the quote behind a text, since each quote in it has a backslash, and each
backslash too. -/
theorem scanQuoted_enclosedChars (hquote : quote ≠ '\\') (s rest : List Char) :
    scanQuoted quote (s.flatMap (enclosedChar quote) ++ quote :: rest) =
      some (s.flatMap (enclosedChar quote), rest) := by
  induction s with
  | nil => rw [List.flatMap_nil, List.nil_append, scanQuoted_cons hquote, if_pos rfl]
  | cons c s ih =>
      rw [List.flatMap_cons, List.append_assoc, enclosedChar]
      split
      · rw [List.cons_append, List.singleton_append, scanQuoted, ih]
        rfl
      · rename_i hplain
        rw [not_or] at hplain
        rw [List.singleton_append, scanQuoted_cons hplain.2, if_neg hplain.1, ih]
        rfl

/-- Each backslash between the quotes escapes the character behind it, or is escaped itself. -/
theorem unescaped_enclosedChars (quote : Char) (s : List Char) :
    unescaped (s.flatMap (enclosedChar quote)) = s := by
  induction s with
  | nil => rfl
  | cons c s ih =>
      rw [List.flatMap_cons, enclosedChar]
      split
      · rw [List.cons_append, List.singleton_append, unescaped, ih]
      · rename_i hplain
        rw [not_or] at hplain
        rw [List.singleton_append, unescaped_cons hplain.2, ih]

/-- What stands behind the quote is shorter than what was scanned. -/
theorem length_of_scanQuoted {s raw rest : List Char} (h : scanQuoted quote s = some (raw, rest)) :
    rest.length < s.length := by
  induction s using scanQuoted.induct quote generalizing raw with
  | case1 => cases h
  | case2 c s ih =>
      rw [scanQuoted, Option.map_eq_some_iff] at h
      obtain ⟨⟨raw, rest⟩, hs, heq⟩ := h
      cases heq
      exact Nat.lt_succ_of_lt (Nat.lt_succ_of_lt (ih hs))
  | case3 s hc =>
      rw [scanQuoted, if_pos rfl] at h
      · cases h
        exact Nat.lt_succ_self _
      · exact hc
  | case4 c s hc hplain ih =>
      rw [scanQuoted, if_neg hplain, Option.map_eq_some_iff] at h
      · obtain ⟨⟨raw, rest⟩, hs, heq⟩ := h
        cases heq
        exact Nat.lt_succ_of_lt (ih hs)
      · exact hc

/-- Backslashes are doubled first, and then each quote gets one. -/
theorem enclosedChars_eq_replaced (hquote : quote ≠ '\\') (s : List Char) :
    s.flatMap (enclosedChar quote) =
      replaced quote ['\\', quote] (replaced '\\' ['\\', '\\'] s) := by
  have hslash : replaced quote ['\\', quote] ['\\', '\\'] = ['\\', '\\'] := by
    simp [replaced, hquote.symm]
  have hsingle : ∀ c, replaced quote ['\\', quote] [c] =
      if c = quote then ['\\', quote] else [c] := fun c => List.append_nil _
  rw [replaced, replaced, List.flatMap_assoc]
  congr 1
  funext c
  rw [enclosedChar]
  by_cases hc : c = '\\'
  · rw [if_pos (.inr hc), if_pos hc, hc]
    exact hslash.symm
  · rw [if_neg hc]
    refine Eq.trans ?_ (hsingle c).symm
    by_cases hq : c = quote
    · rw [if_pos (.inl hq), if_pos hq, hq]
    · rw [if_neg (not_or.mpr ⟨hq, hc⟩), if_neg hq]

/-- The text is known from what stands between the quotes. -/
theorem enclosed_injective (quote : Char) : Function.Injective (enclosed quote) := by
  intro s t h
  have hraw := List.append_cancel_right (List.cons.inj h).2
  rw [← unescaped_enclosedChars quote s, hraw, unescaped_enclosedChars]

end Scanning

end TypeSketch.Text
