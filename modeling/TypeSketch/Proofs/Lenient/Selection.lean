import TypeSketch.Lenient.Parser
import TypeSketch.Proofs.Lenient.Decoration

/-!
# What is taken away around a value

One lemma for each step of `select`, about texts that end like a value does.  The semicolon that is
taken away is the first that ends a line, wherever it stands: `dropSemicolon_cases` says what is
left of a text with such a semicolon in it, and of one without.
-/

namespace TypeSketch.Lenient

open Json (IsSpaces Spaced StringBody Token TokenText)

variable {s x : List Char} {c d : Char}

section Semicolons

/-- A semicolon stands in the text that only blanks and a line feed follow. -/
def HasEndedLine (s : List Char) : Prop :=
  ∃ a bl b, s = a ++ ';' :: (bl ++ '\n' :: b) ∧ ∀ c ∈ bl, Text.isBlank c = true

/-- The text without a semicolon and the blanks behind it, up to a line feed. -/
def Cut (s s' : List Char) : Prop :=
  ∃ a bl b, s = a ++ ';' :: (bl ++ '\n' :: b) ∧ (∀ c ∈ bl, Text.isBlank c = true) ∧
    s' = a ++ '\n' :: b

theorem Cut.hasEndedLine {s' : List Char} (h : Cut s s') : HasEndedLine s := by
  obtain ⟨a, bl, b, heq, hbl, -⟩ := h
  exact ⟨a, bl, b, heq, hbl⟩

theorem HasEndedLine.cons (h : HasEndedLine s) (c : Char) : HasEndedLine (c :: s) := by
  obtain ⟨a, bl, b, rfl, hbl⟩ := h
  exact ⟨c :: a, bl, b, rfl, hbl⟩

theorem hasEndedLine_cons_iff (hc : c ≠ ';') : HasEndedLine (c :: s) ↔ HasEndedLine s := by
  refine ⟨?_, fun h => h.cons c⟩
  rintro ⟨a, bl, b, heq, hbl⟩
  cases a with
  | nil =>
      cases heq
      exact absurd rfl hc
  | cons e a =>
      obtain ⟨-, rfl⟩ := List.cons.inj heq
      exact ⟨a, bl, b, rfl, hbl⟩

/-- What stays behind a semicolon with something behind it that is not blank. -/
theorem afterSemicolon_append {bl : List Char} (hbl : ∀ c ∈ bl, Text.isBlank c = true)
    (hc : Text.isBlank c = false) (r : List Char) :
    afterSemicolon (bl ++ c :: r) =
      if bl.contains '\n' then
        some ('\n' :: ((bl.reverse.takeWhile (· ≠ '\n')).reverse ++ c :: r))
      else none := by
  obtain ⟨htake, hdrop⟩ := span_append (s := c :: r) hbl (by simpa using hc)
  rw [afterSemicolon, htake, hdrop]

/-- Blanks with a line feed are what stands in front of the last one and behind it. -/
theorem exists_split_of_mem {bl : List Char} (h : '\n' ∈ bl) :
    ∃ front, bl = front ++ '\n' :: (bl.reverse.takeWhile (· ≠ '\n')).reverse := by
  have hdrop : bl.reverse.dropWhile (· ≠ '\n') ≠ [] := by
    intro hnil
    have hall := List.dropWhile_eq_nil_iff.mp hnil '\n' (List.mem_reverse.mpr h)
    simp at hall
  obtain ⟨e, front, hfront⟩ := List.exists_cons_of_ne_nil hdrop
  have he : e = '\n' := by
    have hhead := List.head?_dropWhile_not (fun c => decide (c ≠ '\n')) bl.reverse
    rw [hfront] at hhead
    simpa using hhead
  refine ⟨front.reverse, ?_⟩
  have hsplit := List.takeWhile_append_dropWhile (p := fun c => decide (c ≠ '\n')) (l := bl.reverse)
  rw [hfront, he] at hsplit
  have hreverse := congrArg List.reverse hsplit
  simpa using hreverse.symm

/-- A text that ends with something that is not blank starts with blanks and such a character. -/
theorem exists_blanks_append (front : List Char) (hd : Text.isBlank d = false) :
    ∃ bl e y, front ++ [d] = bl ++ e :: y ∧ (∀ c ∈ bl, Text.isBlank c = true) ∧
      Text.isBlank e = false := by
  induction front with
  | nil => exact ⟨[], d, [], rfl, by simp, hd⟩
  | cons c front ih =>
      by_cases hc : Text.isBlank c = true
      · obtain ⟨bl, e, y, heq, hbl, he⟩ := ih
        refine ⟨c :: bl, e, y, ?_, List.forall_mem_cons.mpr ⟨hc, hbl⟩, he⟩
        rw [List.cons_append, heq, List.cons_append]
      · exact ⟨[], c, front ++ [d], rfl, by simp, by simpa using hc⟩

theorem dropSemicolon_of_mem {bl : List Char} (hbl : ∀ c ∈ bl, Text.isBlank c = true)
    (hc : Text.isBlank c = false) (hmem : '\n' ∈ bl) (r : List Char) :
    dropSemicolon (';' :: (bl ++ c :: r)) =
      '\n' :: ((bl.reverse.takeWhile (· ≠ '\n')).reverse ++ c :: r) := by
  rw [dropSemicolon, if_pos rfl, afterSemicolon_append hbl hc, if_pos (by simpa using hmem)]

theorem dropSemicolon_of_notMem {bl : List Char} (hbl : ∀ c ∈ bl, Text.isBlank c = true)
    (hc : Text.isBlank c = false) (hmem : '\n' ∉ bl) (r : List Char) :
    dropSemicolon (';' :: (bl ++ c :: r)) = ';' :: dropSemicolon (bl ++ c :: r) := by
  rw [dropSemicolon, if_pos rfl, afterSemicolon_append hbl hc, if_neg (by simpa using hmem)]

theorem hasEndedLine_of_notMem {bl : List Char} (hbl : ∀ c ∈ bl, Text.isBlank c = true)
    (hc : Text.isBlank c = false) (hmem : '\n' ∉ bl) {r : List Char}
    (h : HasEndedLine (';' :: (bl ++ c :: r))) : HasEndedLine (bl ++ c :: r) := by
  obtain ⟨a, bl', b, heq, hbl'⟩ := h
  cases a with
  | nil =>
      -- the blanks behind the semicolon end before a line feed
      have heq' : bl ++ c :: r = bl' ++ '\n' :: b := (List.cons.inj heq).2
      have htake := (span_append (s := c :: r) hbl (by simpa using hc)).1
      rw [heq', List.takeWhile_append_of_pos hbl'] at htake
      refine absurd ?_ hmem
      rw [← htake]
      simp [Text.isBlank]
  | cons e a => exact ⟨a, bl', b, (List.cons.inj heq).2, hbl'⟩

/-- The first character of a text goes, or what goes is in the rest. -/
theorem dropSemicolon_first (c : Char) (front : List Char) (hd : Text.isBlank d = false) :
    (∃ x', Cut (c :: (front ++ [d])) x' ∧
        ∀ r, dropSemicolon (c :: (front ++ [d] ++ r)) = x' ++ r) ∨
      ((HasEndedLine (c :: (front ++ [d])) → HasEndedLine (front ++ [d])) ∧
        ∀ r, dropSemicolon (c :: (front ++ [d] ++ r)) =
          c :: dropSemicolon (front ++ [d] ++ r)) := by
  by_cases hc : c = ';'
  · subst hc
    obtain ⟨bl, e, y, heq, hbl, he⟩ := exists_blanks_append front hd
    rw [heq]
    simp only [List.append_assoc, List.cons_append]
    by_cases hmem : '\n' ∈ bl
    · obtain ⟨before, hbefore⟩ := exists_split_of_mem hmem
      refine .inl ⟨'\n' :: ((bl.reverse.takeWhile (· ≠ '\n')).reverse ++ e :: y),
        ⟨[], before, (bl.reverse.takeWhile (· ≠ '\n')).reverse ++ e :: y, ?_, ?_, rfl⟩,
        fun r => ?_⟩
      · nth_rewrite 1 [hbefore]
        simp
      · intro c hc
        exact hbl c (by rw [hbefore]; exact List.mem_append_left _ hc)
      · rw [dropSemicolon_of_mem hbl he hmem]
        simp
    · exact .inr ⟨hasEndedLine_of_notMem hbl he hmem,
        fun r => dropSemicolon_of_notMem hbl he hmem (y ++ r)⟩
  · exact .inr ⟨(hasEndedLine_cons_iff hc).mp, fun r => by rw [dropSemicolon, if_neg hc]⟩

/-- Of a text in front of another, the first semicolon that ends a line goes; else it stays. -/
theorem dropSemicolon_cases (front : List Char) (hd : Text.isBlank d = false)
    (hsemicolon : d ≠ ';') :
    (¬HasEndedLine (front ++ [d]) ∧
        ∀ r, dropSemicolon (front ++ [d] ++ r) = front ++ [d] ++ dropSemicolon r) ∨
      ∃ x', Cut (front ++ [d]) x' ∧ ∀ r, dropSemicolon (front ++ [d] ++ r) = x' ++ r := by
  induction front with
  | nil =>
      refine .inl ⟨?_, fun r => ?_⟩
      · rw [List.nil_append, hasEndedLine_cons_iff hsemicolon]
        rintro ⟨a, bl, b, heq, -⟩
        simp at heq
      · rw [List.nil_append, List.singleton_append, dropSemicolon, if_neg hsemicolon,
          List.singleton_append]
  | cons c front ih =>
      simp only [List.cons_append]
      -- a semicolon that stays does not end a line, so one that does is looked for behind it
      rcases dropSemicolon_first c front hd with hfirst | ⟨hended, hdrop⟩
      · exact .inr hfirst
      rcases ih with ⟨hnot, hkeep⟩ | ⟨x', ⟨a, bl, b, heq, hbl, rfl⟩, hcut⟩
      · exact .inl ⟨fun h => hnot (hended h), fun r => by rw [hdrop, hkeep]⟩
      · refine .inr ⟨c :: (a ++ '\n' :: b), ⟨c :: a, bl, b, ?_, hbl, rfl⟩, fun r => ?_⟩
        · rw [heq, List.cons_append]
        · rw [hdrop, hcut, List.cons_append]

end Semicolons

section Gaps

variable {t : Token} {toks : List Token} {w g s' y : List Char} {ws : List (List Char)}

theorem hexQuad_ne_newline {a b c d : Char} {n : Nat} (h : Text.hexQuad? a b c d = some n) :
    '\n' ∉ [a, b, c, d] := by
  intro hmem
  obtain ⟨e, he⟩ := Text.exists_hexDigit_of_hexQuad h '\n' hmem
  cases he

/-- Strings stay on their line. -/
theorem newline_notMem_stringBody {body chars : List Char} (h : StringBody body chars) :
    '\n' ∉ body := by
  induction h with
  | nil => simp
  | plain hquote hescape hcontrol h ih =>
      intro hmem
      rcases List.mem_cons.mp hmem with rfl | hmem
      · exact hcontrol (by decide)
      · exact ih hmem
  | @escape e c s chars he h ih =>
      have hne : '\n' ≠ e := by
        rintro rfl
        cases he
      simp [hne, ih]
  | code hn hlone h ih =>
      have hdigits := hexQuad_ne_newline hn
      simp only [List.mem_cons, List.not_mem_nil, or_false, not_or] at hdigits
      simp [hdigits, ih]
  | pair hn hhigh hn' hlow h ih =>
      have hdigits := hexQuad_ne_newline hn
      have hdigits' := hexQuad_ne_newline hn'
      simp only [List.mem_cons, List.not_mem_nil, or_false, not_or] at hdigits hdigits'
      simp [hdigits, hdigits', ih]

theorem newline_notMem_tokenText (h : TokenText t w) : '\n' ∉ w := by
  rcases h.bare_or_string with hw | ⟨body, chars, hbody, rfl⟩
  · intro hmem
    have hbare := hw _ hmem
    revert hbare
    decide
  · simp [newline_notMem_stringBody hbody]

/-- A gap that starts with a blank character goes on as a gap. -/
theorem Gap.tail {c : Char} (h : Gap (c :: g)) (hc : Text.isBlank c = true) : Gap g := by
  cases h with
  | space _ h => exact h
  | line => cases hc
  | block => cases hc

theorem Gap.of_blanks_append {bl : List Char} (hbl : ∀ c ∈ bl, Text.isBlank c = true)
    (h : Gap (bl ++ g)) : Gap g := by
  induction bl with
  | nil => exact h
  | cons c bl ih =>
      exact ih (fun d hd => hbl d (List.mem_cons_of_mem c hd)) (h.tail (hbl c List.mem_cons_self))

/-- A character in the middle of two texts stands in one of them. -/
theorem append_eq_append_cons {x y a b : List Char} {c : Char} (h : x ++ y = a ++ c :: b) :
    (∃ x', x = a ++ c :: x' ∧ b = x' ++ y) ∨ ∃ a', a = x ++ a' ∧ y = a' ++ c :: b := by
  rcases List.append_eq_append_iff.mp h with ⟨a', ha, hy⟩ | ⟨x', hx, hb⟩
  · exact .inr ⟨a', ha, hy⟩
  · cases x' with
    | nil => exact .inr ⟨[], by simpa using hx.symm, by simpa using hb.symm⟩
    | cons e x' =>
        obtain ⟨rfl, rfl⟩ := List.cons.inj hb
        exact .inl ⟨x', hx, rfl⟩

theorem exists_of_cons_eq_append {y a b : List Char} {c e : Char} (h : e :: y = a ++ c :: b)
    (hne : e ≠ c) : ∃ a', a = e :: a' ∧ y = a' ++ c :: b := by
  cases a with
  | nil => exact absurd (List.cons.inj h).1 hne
  | cons d a =>
      obtain ⟨rfl, hy⟩ := List.cons.inj h
      exact ⟨a, rfl, hy⟩

/-- The ends of a text stay where they are when it is cut. -/
theorem Cut.head {back s' : List Char} (h : Cut (c :: back) s') (hc : c ≠ ';') :
    ∃ back', s' = c :: back' := by
  obtain ⟨a, bl, b, heq, -, rfl⟩ := h
  obtain ⟨a, rfl, -⟩ := exists_of_cons_eq_append heq hc
  exact ⟨_, rfl⟩

theorem Cut.last {front s' : List Char} (h : Cut (front ++ [d]) s')
    (hd : Text.isBlank d = false) : ∃ front', s' = front' ++ [d] := by
  obtain ⟨a, bl, b, heq, -, rfl⟩ := h
  rcases List.eq_nil_or_concat b with rfl | ⟨b', e, rfl⟩
  · have hlast := congrArg List.getLast? heq
    rw [List.getLast?_concat, ← List.cons_append, ← List.append_assoc,
      List.getLast?_concat] at hlast
    obtain rfl := Option.some.inj hlast
    cases hd
  · have hlast := congrArg List.getLast? heq
    rw [List.getLast?_concat, List.concat_eq_append, ← List.cons_append, ← List.append_assoc,
      ← List.cons_append, ← List.append_assoc, List.getLast?_concat] at hlast
    obtain rfl := Option.some.inj hlast
    exact ⟨a ++ '\n' :: b', by simp⟩

/-- The mark that ends a comment does not arise around another character. -/
theorem infix_of_infix_append_cons {x y : List Char} {c : Char} (hc : c ≠ '*' ∧ c ≠ '/')
    (h : ['*', '/'] <:+: x ++ c :: y) : ['*', '/'] <:+: x ∨ ['*', '/'] <:+: y := by
  induction x with
  | nil =>
      rcases List.infix_cons_iff.mp h with h | h
      · exact absurd (List.cons_prefix_cons.mp h).1.symm hc.1
      · exact .inr h
  | cons d x ih =>
      rcases List.infix_cons_iff.mp h with h | h
      · obtain ⟨rfl, hslash⟩ := List.cons_prefix_cons.mp h
        cases x with
        | nil => exact absurd (List.cons_prefix_cons.mp hslash).1.symm hc.2
        | cons e x =>
            obtain ⟨rfl, -⟩ := List.cons_prefix_cons.mp hslash
            exact .inl ⟨[], x, rfl⟩
      · exact (ih h).imp_left fun h => h.trans (List.suffix_cons d x).isInfix

theorem not_infix_cut {a bl b : List Char} (h : ¬['*', '/'] <:+: a ++ ';' :: (bl ++ '\n' :: b)) :
    ¬['*', '/'] <:+: a ++ '\n' :: b := by
  intro hcut
  rcases infix_of_infix_append_cons (by decide) hcut with ha | hb
  · exact h (ha.trans (List.prefix_append a _).isInfix)
  · refine h (hb.trans ⟨a ++ ';' :: (bl ++ ['\n']), [], ?_⟩)
    simp

/-- A cut in a comment, or behind one that it ends in, leaves a gap. -/
theorem Gap.cut (h : Gap g) (hcut : Cut g s') : Gap s' := by
  obtain ⟨a, bl, b, heq, hbl, rfl⟩ := hcut
  -- the induction is on the gap, while `a`, the text in front of the cut, loses what it passes
  induction h generalizing a with
  | nil => simp at heq
  | @space c g hc h ih =>
      obtain ⟨a, rfl, hg⟩ := exists_of_cons_eq_append heq (by rintro rfl; cases hc)
      exact .space hc (ih a hg)
  | @line note g e hnote he h ih =>
      obtain ⟨a, rfl, hslash⟩ := exists_of_cons_eq_append heq (by decide)
      obtain ⟨a, rfl, hnotes⟩ := exists_of_cons_eq_append hslash (by decide)
      rcases append_eq_append_cons hnotes with ⟨note', rfl, hback⟩ | ⟨a', rfl, hback⟩
      · have hfront : ∀ c ∈ a, isLineBreak c = false := fun c hc =>
          hnote c (List.mem_append_left _ hc)
        refine .line hfront rfl ?_
        rcases append_eq_append_cons hback.symm with ⟨note'', rfl, -⟩ | ⟨bl', rfl, hg⟩
        · have hbreak := hnote '\n' (by simp)
          cases hbreak
        · -- the cut goes on behind the comment
          have hgap : Gap (e :: g) := .space (isSpace_of_isLineBreak he) h
          rw [hg] at hgap
          have htail := hgap.of_blanks_append fun c hc => hbl c (List.mem_append_right _ hc)
          exact htail.tail (by decide)
      · obtain ⟨a', rfl, hg⟩ := exists_of_cons_eq_append hback (by rintro rfl; cases he)
        have hrest := Gap.line hnote he (ih a' hg)
        simpa using hrest
  | @block note g hnote h ih =>
      obtain ⟨a, rfl, hslash⟩ := exists_of_cons_eq_append heq (by decide)
      obtain ⟨a, rfl, hnotes⟩ := exists_of_cons_eq_append hslash (by decide)
      rcases append_eq_append_cons hnotes with ⟨note', rfl, hback⟩ | ⟨a', rfl, hback⟩
      · rcases append_eq_append_cons hback.symm with ⟨note'', rfl, rfl⟩ | ⟨bl', rfl, hg⟩
        · have hrest := Gap.block (not_infix_cut hnote) h
          simpa using hrest
        · -- the comment ends with a character that is not blank
          obtain ⟨bl', rfl, -⟩ := exists_of_cons_eq_append hg (by decide)
          have hblank := hbl '*' (by simp)
          cases hblank
      · obtain ⟨a', rfl, hmark⟩ := exists_of_cons_eq_append hback (by decide)
        obtain ⟨a', rfl, hg⟩ := exists_of_cons_eq_append hmark (by decide)
        have hrest := Gap.block hnote (ih a' hg)
        simpa using hrest

theorem ne_semicolon_of_mem_lasts {d : Char} (h : d ∈ Json.lasts) : d ≠ ';' := by
  have hall : ∀ d ∈ Json.lasts, d ≠ ';' := by decide
  exact hall d h

/-- A token has no semicolon that ends a line, not even with what follows it. -/
theorem notMem_of_tokenText {a w' bl b y : List Char} (h : TokenText t (a ++ ';' :: w'))
    (hbl : ∀ c ∈ bl, Text.isBlank c = true) (heq : w' ++ y = bl ++ '\n' :: b) : False := by
  rcases append_eq_append_cons heq with ⟨w'', rfl, -⟩ | ⟨bl', rfl, -⟩
  · exact newline_notMem_tokenText h (by simp)
  · -- the token would end with the semicolon or a blank
    obtain ⟨front, d, hlast, hd⟩ := h.last
    have hback : d ∈ ';' :: w' := by
      have hgetLast := congrArg List.getLast? hlast
      rw [List.getLast?_append_of_ne_nil _ (List.cons_ne_nil ';' w'),
        List.getLast?_concat] at hgetLast
      exact List.mem_of_getLast? hgetLast
    rcases List.mem_cons.mp hback with rfl | hmem
    · exact ne_semicolon_of_mem_lasts hd rfl
    · have hblank := hbl d (List.mem_append_left _ hmem)
      rw [isBlank_of_mem_lasts hd] at hblank
      cases hblank

/-- A text with tokens and comments stays one when it is cut. -/
theorem spaced_cut (hw : ∀ w ∈ ws, ∃ t, TokenText t w) (h : Spaced Gap ws s) (hcut : Cut s s') :
    Spaced Gap ws s' := by
  obtain ⟨a, bl, b, heq, hbl, rfl⟩ := hcut
  induction h generalizing a with
  | last w =>
      obtain ⟨t, ht⟩ := hw w List.mem_cons_self
      refine absurd ?_ (newline_notMem_tokenText ht)
      simp [heq]
  | @next w g s ws hg h ih =>
      obtain ⟨t, ht⟩ := hw w List.mem_cons_self
      have hw' : ∀ u ∈ ws, ∃ t, TokenText t u := fun u hu => hw u (List.mem_cons_of_mem w hu)
      rcases append_eq_append_cons heq with ⟨w', rfl, hback⟩ | ⟨a', rfl, hback⟩
      · exact (notMem_of_tokenText ht hbl hback.symm).elim
      rcases append_eq_append_cons hback with ⟨g', rfl, hrest⟩ | ⟨a'', rfl, hrest⟩
      · rcases append_eq_append_cons hrest.symm with ⟨g'', rfl, rfl⟩ | ⟨bl', rfl, hs⟩
        · have hgap := hg.cut ⟨a', bl, g'', rfl, hbl, rfl⟩
          have hspaced := Spaced.next (w := w) hgap h
          simpa using hspaced
        · -- behind the gap there is a token, and it does not start with a blank
          obtain ⟨⟨c, back, hfirst, hc⟩, -⟩ := h.ends hw'
          rw [hfirst] at hs
          have hblank : Text.isBlank c = true := by
            cases bl' with
            | nil =>
                cases hs
                decide
            | cons d bl' =>
                obtain ⟨rfl, -⟩ := List.cons.inj hs
                exact hbl c (by simp)
          rw [isBlank_of_mem_firsts hc] at hblank
          cases hblank
      · have hspaced := Spaced.next (w := w) hg (ih hw' a'' hrest)
        simpa using hspaced

end Gaps

section Wrappers

variable {w y : List Char}

/-- `as const`, where it stands. -/
def constText (asConst : Bool) : List Char := if asConst then " as const".toList else []

/-- The semicolon at the end, where it stands. -/
def endText (semicolon : Bool) : List Char := if semicolon then [';'] else []

/-- Text with something at its start and its end stays between blanks. -/
theorem strip_ends {back front : List Char} (hback : s = c :: back) (hfront : s = front ++ [d])
    (hc : Text.isBlank c = false) (hd : Text.isBlank d = false) : Text.strip s = s := by
  have hstrip := strip_of_blanks (List.forall_mem_nil _) (List.forall_mem_nil _) hback hfront hc hd
  simpa using hstrip

theorem dropAssignment_append (hw : '=' ∉ w) (y : List Char) :
    dropAssignment (w ++ '=' :: y) = y := by
  have hw' : ∀ c ∈ w, decide (c ≠ '=') = true := by
    rintro c hc
    exact decide_eq_true fun h => hw (h ▸ hc)
  rw [dropAssignment, (span_append hw' (by simp)).2]

theorem dropAssignment_of_notMem (hs : '=' ∉ s) : dropAssignment s = s := by
  have hnil : s.dropWhile (fun c => decide (c ≠ '=')) = [] := by
    refine List.dropWhile_eq_nil_iff.mpr fun c hc => ?_
    exact decide_eq_true fun h => hs (h ▸ hc)
  rw [dropAssignment, hnil]

/-- No value ends like `as const`. -/
theorem dropAsConst_endText (front : List Char) (hd : d ∈ Json.lasts) (semicolon : Bool) :
    dropAsConst (front ++ [d] ++ endText semicolon) = front ++ [d] ++ endText semicolon := by
  have hne := ne_semicolon_of_mem_lasts hd
  have hall : ∀ d ∈ Json.lasts, isLetter 't' d = false := by decide
  have hskip := skipBlanks_cons (isBlank_of_mem_lasts hd) front.reverse
  have hletters : dropLetters ['t', 's', 'n', 'o', 'c'] (d :: front.reverse) = none := by
    rw [dropLetters, hall d hd]
    rfl
  cases semicolon with
  | true => simp [dropAsConst, endText, hskip, hletters]
  | false => simp [dropAsConst, endText, hne, hskip, hletters]

/-- `as const` goes with the semicolon behind it. -/
theorem dropAsConst_constText (front : List Char) (hd : Text.isBlank d = false) (semicolon : Bool) :
    dropAsConst (front ++ [d] ++ (constText true ++ endText semicolon)) = front ++ [d] := by
  have hskip := skipBlanks_cons hd front.reverse
  have hspace : Text.isBlank ' ' = true := rfl
  have ht := skipBlanks_cons (c := 't') rfl
  have hs := skipBlanks_cons (c := 's') rfl
  cases semicolon <;>
    simp [dropAsConst, constText, endText, ht, hs, dropLetters, isLetter, dropSomeBlanks, hspace,
      hskip]

/-- The first characters by which a text is told to be no value by itself. -/
def wrapped : List Char := ['e', 'c', 'l', 'v', '"']

theorem select_of_wrapped {back : List Char} (hc : c ∈ wrapped)
    (hstrip : Text.strip s = c :: back) :
    select s = wrapMember (dropParentheses (Text.strip (dropSemicolon
      (dropAsConst (dropAssignment (dropExport (c :: back))))))) := by
  simp only [wrapped, List.mem_cons, List.not_mem_nil, or_false] at hc
  rw [select, hstrip]
  rcases hc with rfl | rfl | rfl | rfl | rfl <;> simp

/-- A value in brackets is neither put in parentheses nor a member. -/
theorem wrapMember_of_bracket (hc : c = '[' ∨ c = '\x7b') :
    wrapMember (dropParentheses (c :: s)) = c :: s := by
  rcases hc with rfl | rfl <;> simp [wrapMember, dropParentheses, isMember, dropName, isQuote,
    Name.isStart]

end Wrappers

section Attempts

variable {v : Json}

/-- A text that is no JSON by itself is read as what is selected from it. -/
theorem parse_of_clean (hs : ∀ u, Json.parse s ≠ .ok u)
    (h : Json.parse (clean (select s)) = .ok v) : parse s = .ok v := by
  rw [parse]
  split
  next u hu => exact absurd hu (hs u)
  next => simp only [h]

theorem exists_parse_error (hs : ∀ u, Json.parse s ≠ .ok u)
    (hclean : ∀ u, Json.parse (clean (select s)) ≠ .ok u)
    (hrespell : ∀ u, Json.parse (respell (clean (select s))) ≠ .ok u) :
    ∃ e, parse s = .error e := by
  rw [parse]
  split
  next u hu => exact absurd hu (hs u)
  next =>
    dsimp only
    split
    next u hu => exact absurd hu (hclean u)
    next =>
      cases hparse : Json.parse (respell (clean (select s))) with
      | ok u => exact absurd hparse (hrespell u)
      | error e => exact ⟨e, rfl⟩

end Attempts

end TypeSketch.Lenient
