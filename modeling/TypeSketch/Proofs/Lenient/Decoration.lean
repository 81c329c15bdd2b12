import TypeSketch.Lenient.Decoration
import TypeSketch.Proofs.Json.Layout

/-!
# Decorated text

`Decorated ws s` says that `s` is made of the texts `ws` with white space and comments between and
around them, and with a comma in front of some closing brackets.  Main statement:
`parse_clean_of_decorated`, cleaning gives a text that is read like the undecorated one.
-/

namespace TypeSketch.Lenient

open Json (IsSpaces Spaced Surrounded StringBody Token TokenText)

section Decorations

def isLineBreak (c : Char) : Bool := c = '\n' || c = '\r'

/-- What may stand between two tokens: white space, line comments with the line break that ends
them, and block comments. -/
inductive Gap : List Char → Prop
  | nil : Gap []
  | space {c : Char} {g : List Char} (hc : Json.isSpace c = true) (h : Gap g) : Gap (c :: g)
  | line {note g : List Char} {e : Char} (hnote : ∀ c ∈ note, isLineBreak c = false)
      (he : isLineBreak e = true) (h : Gap g) : Gap ('/' :: '/' :: (note ++ e :: g))
  | block {note g : List Char} (hnote : ¬['*', '/'] <:+: note) (h : Gap g) :
      Gap ('/' :: '*' :: (note ++ '*' :: '/' :: g))

theorem gap_of_isSpaces {g : List Char} (h : IsSpaces g) : Gap g := by
  induction g with
  | nil => exact .nil
  | cons c g ih =>
      exact .space (h c List.mem_cons_self) (ih fun d hd => h d (List.mem_cons_of_mem c hd))

/-- What may stand behind the last token, where the end of the text ends a line comment too. -/
inductive LastGap : List Char → Prop
  | gap {g : List Char} (h : Gap g) : LastGap g
  | line {g note : List Char} (h : Gap g) (hnote : ∀ c ∈ note, isLineBreak c = false) :
      LastGap (g ++ '/' :: '/' :: note)

/-- Texts with a comma in front of some closing brackets. -/
inductive WithCommas : List (List Char) → List (List Char) → Prop
  | nil : WithCommas [] []
  | keep (w : List Char) {ws ws' : List (List Char)} (h : WithCommas ws ws') :
      WithCommas (w :: ws) (w :: ws')
  | comma {w : List Char} {ws ws' : List (List Char)} (hw : w = [']'] ∨ w = ['}'])
      (h : WithCommas (w :: ws) (w :: ws')) : WithCommas (w :: ws) ([','] :: w :: ws')

theorem withCommas_self (ws : List (List Char)) : WithCommas ws ws := by
  induction ws with
  | nil => exact .nil
  | cons w ws ih => exact .keep w ih

/-- The texts with decorations between them, and with a comma in front of some closing brackets. -/
def Spread (ws : List (List Char)) (s : List Char) : Prop :=
  ∃ ws', WithCommas ws ws' ∧ Spaced Gap ws' s

/-- The texts with decorations between and around them. -/
def Decorated (ws : List (List Char)) (s : List Char) : Prop :=
  ∃ g b g', Gap g ∧ Spread ws b ∧ LastGap g' ∧ s = g ++ (b ++ g')

theorem Spread.decorated {ws : List (List Char)} {s : List Char} (h : Spread ws s) :
    Decorated ws s :=
  ⟨[], s, [], .nil, h, .gap .nil, (List.append_nil s).symm⟩

end Decorations

section Strings

/-- An operation on text that passes over strings. -/
def KeepsStrings (f : Place → List Char → List Char) : Prop :=
  ∀ place c s, place ≠ .code ∨ isQuote c = true → f place (c :: s) = c :: f (place.next c) s

variable {f : Place → List Char → List Char}

theorem hexQuad_ne {a b c d : Char} {n : Nat} (h : Text.hexQuad? a b c d = some n) :
    ∀ x ∈ [a, b, c, d], x ≠ '"' ∧ x ≠ '\\' := by
  intro x hx
  obtain ⟨e, he⟩ := Text.exists_hexDigit_of_hexQuad h x hx
  constructor <;> rintro rfl <;> cases he

theorem KeepsStrings.quoted (hf : KeepsStrings f) (c : Char) (s : List Char) :
    f (.quoted '"') (c :: s) = c :: f ((Place.quoted '"').next c) s :=
  hf (.quoted '"') c s (.inl (by decide))

theorem KeepsStrings.plain (hf : KeepsStrings f) {w : List Char}
    (hw : ∀ c ∈ w, c ≠ '"' ∧ c ≠ '\\') (s : List Char) :
    f (.quoted '"') (w ++ s) = w ++ f (.quoted '"') s := by
  induction w with
  | nil => rfl
  | cons c w ih =>
      obtain ⟨hquote, hescape⟩ := hw c List.mem_cons_self
      rw [List.cons_append, hf.quoted, List.cons_append]
      simp [Place.next, hquote, hescape, ih fun d hd => hw d (List.mem_cons_of_mem c hd)]

theorem KeepsStrings.escape (hf : KeepsStrings f) (e : Char) (s : List Char) :
    f (.quoted '"') ('\\' :: e :: s) = '\\' :: e :: f (.quoted '"') s := by
  rw [hf.quoted, show (Place.quoted '"').next '\\' = .escaped '"' from rfl,
    hf (.escaped '"') e s (.inl (by decide))]
  rfl

theorem KeepsStrings.body (hf : KeepsStrings f) {body chars : List Char}
    (h : StringBody body chars) (s : List Char) :
    f (.quoted '"') (body ++ s) = body ++ f (.quoted '"') s := by
  induction h with
  | nil => rfl
  | @plain c body chars hquote hescape hcontrol h ih =>
      rw [List.cons_append, hf.quoted, List.cons_append, ← ih]
      simp [Place.next, hquote, hescape]
  | escape he h ih => simp [hf.escape, ih]
  | code hn hlone h ih =>
      have hplain := hf.plain (hexQuad_ne hn)
      simp only [List.cons_append, List.nil_append] at hplain
      simp [hf.escape, hplain, ih]
  | pair hn hhigh hn' hlow h ih =>
      have hplain := hf.plain (hexQuad_ne hn)
      have hplain' := hf.plain (hexQuad_ne hn')
      simp only [List.cons_append, List.nil_append] at hplain hplain'
      simp [hf.escape, hplain, hplain', ih]

/-- A string is left as it is. -/
theorem KeepsStrings.string (hf : KeepsStrings f) {body chars : List Char}
    (h : StringBody body chars) (s : List Char) :
    f .code ('"' :: (body ++ ['"']) ++ s) = '"' :: (body ++ ['"']) ++ f .code s := by
  simp only [List.cons_append, List.append_assoc, List.nil_append]
  rw [hf .code '"' _ (.inr rfl), show Place.code.next '"' = .quoted '"' from rfl, hf.body h,
    hf.quoted]
  rfl

theorem keepsStrings_dropTrailingCommas : KeepsStrings dropTrailingCommas := by
  rintro place c s h
  have hcomma : ¬(place = .code ∧ c = ',' ∧ closes s = true) := by
    rintro ⟨rfl, rfl, -⟩
    rcases h with h | h
    · exact h rfl
    · cases h
  rw [dropTrailingCommas, if_neg hcomma]

end Strings

section Comments

/-- A character is no part of a comment in a string, and outside of it if it is no slash. -/
theorem dropComments_cons {place : Place} {c : Char} (h : place ≠ .code ∨ c ≠ '/')
    (s : List Char) :
    dropComments (.text place) (c :: s) = c :: dropComments (.text (place.next c)) s := by
  rw [dropComments] <;>
  · rintro _ rfl rfl _
    simp at h

theorem keepsStrings_dropComments : KeepsStrings fun place => dropComments (.text place) := by
  rintro place c s (h | h)
  · exact dropComments_cons (.inl h) s
  · refine dropComments_cons (.inr ?_) s
    rintro rfl
    cases h

variable {t : Token} {w g s note : List Char}

theorem next_code_of_mem_bareChars {c : Char} (h : c ∈ Json.bareChars) :
    Place.code.next c = .code := by
  have hall : ∀ c ∈ Json.bareChars, isQuote c = false := by decide
  simp [Place.next, hall c h]

theorem dropComments_of_bare (hw : ∀ c ∈ w, c ∈ Json.bareChars) (s : List Char) :
    dropComments (.text .code) (w ++ s) = w ++ dropComments (.text .code) s := by
  induction w with
  | nil => rfl
  | cons c w ih =>
      have hc := hw c List.mem_cons_self
      have hslash : ∀ c ∈ Json.bareChars, c ≠ '/' := by decide
      rw [List.cons_append, dropComments_cons (.inr (hslash c hc)), next_code_of_mem_bareChars hc,
        ih fun d hd => hw d (List.mem_cons_of_mem c hd), List.cons_append]

theorem dropComments_of_tokenText (h : TokenText t w) (s : List Char) :
    dropComments (.text .code) (w ++ s) = w ++ dropComments (.text .code) s := by
  rcases h.bare_or_string with hw | ⟨body, chars, hbody, rfl⟩
  · exact dropComments_of_bare hw s
  · exact keepsStrings_dropComments.string hbody s

theorem dropComments_line_append (hnote : ∀ c ∈ note, isLineBreak c = false) (s : List Char) :
    dropComments .lineComment (note ++ s) = dropComments .lineComment s := by
  induction note with
  | nil => rfl
  | cons c note ih =>
      have hc := hnote c List.mem_cons_self
      rw [List.cons_append, dropComments, if_neg (by simpa [isLineBreak] using hc),
        ih fun d hd => hnote d (List.mem_cons_of_mem c hd)]

/-- A block comment ends at the first mark that ends one, which is the one behind the note. -/
theorem dropComments_block (hnote : ¬['*', '/'] <:+: note) (s : List Char) :
    dropComments .blockComment (note ++ '*' :: '/' :: s) = dropComments (.text .code) s := by
  induction note with
  | nil => rw [List.nil_append, dropComments]
  | cons c note ih =>
      have hrest : ¬['*', '/'] <:+: note := fun h =>
        hnote (h.trans (List.suffix_cons c note).isInfix)
      rw [List.cons_append, dropComments, ih hrest]
      rintro r rfl heq
      cases note with
      | nil => cases heq
      | cons d note =>
          cases heq
          exact hnote ⟨[], note, rfl⟩

theorem isSpace_of_isLineBreak {c : Char} (h : isLineBreak c = true) : Json.isSpace c = true := by
  simp only [isLineBreak, Bool.or_eq_true, decide_eq_true_eq] at h
  rcases h with rfl | rfl <;> rfl

theorem dropComments_of_isSpace {c : Char} (hc : Json.isSpace c = true) (s : List Char) :
    dropComments (.text .code) (c :: s) = c :: dropComments (.text .code) s := by
  have hslash : ∀ c ∈ Json.spaces, c ≠ '/' ∧ Place.code.next c = .code := by decide
  obtain ⟨hne, hnext⟩ := hslash c (Json.mem_spaces_of_isSpace hc)
  rw [dropComments_cons (.inr hne), hnext]

/-- What is left of a gap is white space. -/
theorem Gap.exists_spaces (h : Gap g) : ∃ g', IsSpaces g' ∧
    ∀ s, dropComments (.text .code) (g ++ s) = g' ++ dropComments (.text .code) s := by
  induction h with
  | nil => exact ⟨[], Json.isSpaces_nil, fun s => rfl⟩
  | @space c g hc h ih =>
      obtain ⟨g', hg', hs⟩ := ih
      exact ⟨c :: g', .cons hc hg', fun s => by
        rw [List.cons_append, dropComments_of_isSpace hc, hs, List.cons_append]⟩
  | @line note g e hnote he h ih =>
      obtain ⟨g', hg', hs⟩ := ih
      refine ⟨e :: g', .cons (isSpace_of_isLineBreak he) hg', fun s => ?_⟩
      simp only [List.cons_append, List.append_assoc]
      rw [dropComments, dropComments_line_append hnote, dropComments,
        if_pos (by simpa [isLineBreak] using he), hs]
  | block hnote h ih =>
      obtain ⟨g', hg', hs⟩ := ih
      refine ⟨g', hg', fun s => ?_⟩
      simp only [List.cons_append, List.append_assoc]
      rw [dropComments, dropComments_block hnote, hs]

theorem LastGap.isSpaces (h : LastGap g) : IsSpaces (dropComments (.text .code) g) := by
  cases h with
  | gap h =>
      obtain ⟨g', hg', hs⟩ := h.exists_spaces
      rw [← List.append_nil g, hs]
      exact hg'.append Json.isSpaces_nil
  | @line g note h hnote =>
      obtain ⟨g', hg', hs⟩ := h.exists_spaces
      rw [hs, dropComments, ← List.append_nil note, dropComments_line_append hnote]
      exact hg'.append Json.isSpaces_nil

/-- Comments between tokens leave white space. -/
theorem exists_spaced_of_comments {ws : List (List Char)} (hw : ∀ w ∈ ws, ∃ t, TokenText t w)
    (h : Spaced Gap ws s) : ∃ b, Spaced IsSpaces ws b ∧
      ∀ r, dropComments (.text .code) (s ++ r) = b ++ dropComments (.text .code) r := by
  induction h with
  | last w =>
      obtain ⟨t, ht⟩ := hw w List.mem_cons_self
      exact ⟨w, .last w, dropComments_of_tokenText ht⟩
  | @next w g s ws hg h ih =>
      obtain ⟨t, ht⟩ := hw w List.mem_cons_self
      obtain ⟨b, hb, hs⟩ := ih fun w' hw' => hw w' (List.mem_cons_of_mem w hw')
      obtain ⟨g', hg', hgs⟩ := hg.exists_spaces
      refine ⟨w ++ (g' ++ b), .next hg' hb, fun r => ?_⟩
      simp only [List.append_assoc]
      rw [dropComments_of_tokenText ht, hgs, hs]

end Comments

section Commas

variable {t : Token} {toks : List Token} {w g s : List Char} {ws ws' : List (List Char)}

theorem isBlank_of_isSpace {c : Char} (h : Json.isSpace c = true) : Text.isBlank c = true := by
  have hall : ∀ c ∈ Json.spaces, Text.isBlank c = true := by decide
  exact hall c (Json.mem_spaces_of_isSpace h)

theorem isBlank_of_mem_firsts {c : Char} (h : c ∈ Json.firsts) : Text.isBlank c = false := by
  have hall : ∀ c ∈ Json.firsts, Text.isBlank c = false := by decide
  exact hall c h

theorem skipBlanks_append (hg : ∀ c ∈ g, Text.isBlank c = true) (s : List Char) :
    Text.skipBlanks (g ++ s) = Text.skipBlanks s := by
  rw [Text.skipBlanks, List.dropWhile_append, List.dropWhile_eq_nil_iff.mpr hg]
  rfl

theorem skipBlanks_cons {c : Char} (hc : Text.isBlank c = false) (s : List Char) :
    Text.skipBlanks (c :: s) = c :: s :=
  List.dropWhile_cons_of_neg (by simp [hc])

/-- A run of characters ends in front of a text that does not go on with it. -/
theorem span_append {p : Char → Bool} (hw : ∀ c ∈ w, p c = true)
    (hs : ∀ c ∈ s.head?, p c = false) :
    (w ++ s).takeWhile p = w ∧ (w ++ s).dropWhile p = s := by
  have hstop : s.takeWhile p = [] ∧ s.dropWhile p = s := by
    cases s with
    | nil => exact ⟨rfl, rfl⟩
    | cons c s => simp [hs c rfl]
  rw [List.takeWhile_append_of_pos hw, List.dropWhile_append_of_pos hw, hstop.1, hstop.2,
    List.append_nil]
  exact ⟨rfl, rfl⟩

/-- A token closes something if and only if its text starts with a closing bracket. -/
theorem closes_of_tokenText {c : Char} {tail : List Char} (h : TokenText t (c :: tail)) :
    (c = '}' || c = ']') = t.closes := by
  generalize hw : c :: tail = w at h
  cases h with
  | mark h =>
      cases hw
      have hmem := Json.mem_marks_of_mark? h
      simp only [Json.marks, List.mem_cons, List.not_mem_nil, or_false] at hmem
      rcases hmem with rfl | rfl | rfl | rfl | rfl | rfl <;> cases h <;> rfl
  | word h =>
      subst hw
      have hall : ∀ x ∈ Json.plainWords ++ Json.numberWords,
          x.2.closes = false ∧ ∀ d ∈ x.1, (d = '}' || d = ']') = false := by decide
      obtain ⟨ht, hc⟩ := hall _ h
      rw [hc c List.mem_cons_self, ht]
  | number h =>
      subst hw
      obtain ⟨_, _, heq, hc⟩ := h.first
      cases heq
      have hne : c ≠ '}' ∧ c ≠ ']' := by
        constructor <;> rintro rfl <;> simp at hc
      simp [hne, Token.closes]
  | string h =>
      cases hw
      rfl

/-- Whether a text closes something is told by its first token. -/
theorem closes_append (hw : TokenText t w) (hg : IsSpaces g) (s : List Char) :
    closes (g ++ (w ++ s)) = t.closes := by
  obtain ⟨c, tail, rfl, hc⟩ := hw.first
  have hskip : Text.skipBlanks (g ++ (c :: tail ++ s)) = c :: (tail ++ s) := by
    rw [skipBlanks_append fun d hd => isBlank_of_isSpace (hg d hd), List.cons_append,
      skipBlanks_cons (isBlank_of_mem_firsts hc)]
  rw [closes, hskip]
  exact closes_of_tokenText hw

theorem dropTrailingCommas_of_bare (hw : ∀ c ∈ w, c ∈ Json.bareChars) (hcomma : ',' ∉ w)
    (s : List Char) : dropTrailingCommas .code (w ++ s) = w ++ dropTrailingCommas .code s := by
  induction w with
  | nil => rfl
  | cons c w ih =>
      obtain ⟨hc, hcomma⟩ := not_or.mp (mt List.mem_cons.mpr hcomma)
      rw [List.cons_append, dropTrailingCommas, if_neg (by simp [Ne.symm hc]),
        next_code_of_mem_bareChars (hw c List.mem_cons_self),
        ih (fun d hd => hw d (List.mem_cons_of_mem c hd)) hcomma, List.cons_append]

/-- Apart from a comma in front of a closing bracket, tokens stay. -/
theorem dropTrailingCommas_of_tokenText (h : TokenText t w) (hs : t = .comma → closes s = false) :
    dropTrailingCommas .code (w ++ s) = w ++ dropTrailingCommas .code s := by
  cases h with
  | @mark c t h =>
      by_cases hc : c = ','
      · subst hc
        rw [List.singleton_append, dropTrailingCommas,
          if_neg (by simp [hs (Option.some.inj h).symm])]
        rfl
      · refine dropTrailingCommas_of_bare ?_ (by simpa using Ne.symm hc) s
        simpa [Json.bareChars] using .inl (Json.mem_marks_of_mark? h)
  | word h =>
      have hall : ∀ x ∈ Json.plainWords ++ Json.numberWords,
          (∀ c ∈ x.1, c ∈ Json.bareChars) ∧ ',' ∉ x.1 := by decide
      exact dropTrailingCommas_of_bare (hall _ h).1 (hall _ h).2 s
  | number h =>
      refine dropTrailingCommas_of_bare (fun c hc => ?_) (fun hc => ?_) s
      · exact List.mem_append_left _ (List.mem_append_right _ (h.chars c hc))
      · have hcomma := h.chars _ hc
        revert hcomma
        decide
  | string h => exact keepsStrings_dropTrailingCommas.string h s

theorem dropTrailingCommas_of_isSpaces (hg : IsSpaces g) (s : List Char) :
    dropTrailingCommas .code (g ++ s) = g ++ dropTrailingCommas .code s := by
  induction g with
  | nil => rfl
  | cons c g ih =>
      have hall : ∀ c ∈ Json.spaces, c ≠ ',' ∧ Place.code.next c = .code := by decide
      obtain ⟨hne, hnext⟩ := hall c (Json.mem_spaces_of_isSpace (hg c List.mem_cons_self))
      rw [List.cons_append, dropTrailingCommas, if_neg (by simp [hne]), hnext,
        ih fun d hd => hg d (List.mem_cons_of_mem c hd), List.cons_append]

theorem WithCommas.eq_nil (h : WithCommas ws []) : ws = [] := by
  cases h
  rfl

/-- Only in front of closing brackets there are new commas. -/
theorem WithCommas.head_eq (h : WithCommas (w :: ws) ws') (hw : w ≠ [']'] ∧ w ≠ ['}']) :
    ∃ us, ws' = w :: us := by
  cases h with
  | keep => exact ⟨_, rfl⟩
  | comma hclosing => exact absurd hclosing (not_or.mpr hw)

theorem WithCommas.tokenTexts (h : WithCommas ws ws') (hw : ∀ w ∈ ws, ∃ t, TokenText t w) :
    ∀ w ∈ ws', ∃ t, TokenText t w := by
  induction h with
  | nil => exact hw
  | keep w h ih =>
      intro w' hw'
      rcases List.mem_cons.mp hw' with rfl | hw'
      · exact hw _ List.mem_cons_self
      · exact ih (fun u hu => hw u (List.mem_cons_of_mem w hu)) w' hw'
  | comma hclosing h ih =>
      intro w' hw'
      rcases List.mem_cons.mp hw' with rfl | hw'
      · exact ⟨.comma, .mark rfl⟩
      · exact ih hw w' hw'

/-- Behind a comma that is a token nothing is closed. -/
theorem closes_behind_comma {t' : Token} (hw : List.Forall₂ TokenText (t' :: toks) ws)
    (ht : t'.closes = false) (hws : WithCommas ws ws') (hs : Spaced IsSpaces ws' s)
    (hg : IsSpaces g) (r : List Char) : closes (g ++ (s ++ r)) = false := by
  obtain ⟨w, us, hw', -, rfl⟩ := List.forall₂_cons_left_iff.mp hw
  have hclosing : w ≠ [']'] ∧ w ≠ ['}'] := by
    constructor <;> rintro rfl <;> simpa [ht] using closes_of_tokenText hw'
  obtain ⟨us', rfl⟩ := hws.head_eq hclosing
  obtain ⟨rest, rfl⟩ := hs.exists_append
  rw [List.append_assoc, closes_append hw' hg, ht]

/-- Without trailing commas the tokens are left with white space between them. -/
theorem exists_spaced_of_commas (hw : List.Forall₂ TokenText toks ws)
    (hchain : toks.IsChain Json.Follows) (hlast : toks.getLast? ≠ some .comma)
    (hws : WithCommas ws ws') (hs : Spaced IsSpaces ws' s) :
    ∃ g b, IsSpaces g ∧ Spaced IsSpaces ws b ∧
      ∀ r, dropTrailingCommas .code (s ++ r) = g ++ (b ++ dropTrailingCommas .code r) := by
  -- the blanks of a comma that goes stand in front of its bracket, so `g` is carried along
  induction hws generalizing toks s with
  | nil => cases hs
  | @keep w ws ws' hws ih =>
      obtain ⟨t, ts, ht, hts, rfl⟩ := List.forall₂_cons_right_iff.mp hw
      cases hs with
      | last =>
          obtain rfl := hws.eq_nil
          cases hts
          refine ⟨[], w, Json.isSpaces_nil, .last w, fun r => ?_⟩
          exact dropTrailingCommas_of_tokenText ht fun hcomma => absurd (by simp [hcomma]) hlast
      | @next _ g s _ hg hs =>
          have hlast' : ts.getLast? ≠ some .comma := by
            cases ts with
            | nil => simp
            | cons => simpa using hlast
          obtain ⟨g', b, hg', hb, hr⟩ := ih hts hchain.of_cons hlast' hs
          refine ⟨[], w ++ ((g ++ g') ++ b), Json.isSpaces_nil, .next (hg.append hg') hb,
            fun r => ?_⟩
          have hcomma : t = .comma → closes (g ++ (s ++ r)) = false := by
            intro htcomma
            cases ts with
            | nil =>
                rw [htcomma] at hlast
                exact absurd rfl hlast
            | cons t' ts =>
                have hfollows := (List.isChain_cons_cons.mp hchain).1
                exact closes_behind_comma hts (hfollows.comma htcomma) hws hs hg r
          simp only [List.append_assoc, List.nil_append]
          rw [dropTrailingCommas_of_tokenText ht hcomma, dropTrailingCommas_of_isSpaces hg, hr]
  | @comma w ws ws' hclosing hws ih =>
      -- the new comma has its bracket behind it, as `closes` asks
      cases hs with
      | @next _ g s _ hg hs =>
          obtain ⟨g', b, hg', hb, hr⟩ := ih hw hchain hlast hs
          refine ⟨g ++ g', b, hg.append hg', hb, fun r => ?_⟩
          obtain ⟨t, ts, ht, -, rfl⟩ := List.forall₂_cons_right_iff.mp hw
          have hcloses : closes (g ++ (s ++ r)) = true := by
            obtain ⟨rest, rfl⟩ := hs.exists_append
            rw [List.append_assoc, closes_append ht hg]
            rcases hclosing with rfl | rfl <;> exact (closes_of_tokenText ht).symm
          simp only [List.append_assoc, List.cons_append, List.nil_append]
          rw [dropTrailingCommas, if_pos ⟨rfl, rfl, hcloses⟩, dropTrailingCommas_of_isSpaces hg, hr]

end Commas

section Cleaning

variable {t : Token} {toks : List Token} {s b g g' : List Char} {ws ws' : List (List Char)}
  {v : Json}

theorem isBlank_of_mem_lasts {c : Char} (h : c ∈ Json.lasts) : Text.isBlank c = false := by
  have hall : ∀ c ∈ Json.lasts, Text.isBlank c = false := by decide
  exact hall c h

theorem strip_of_blanks {front back : List Char} {c d : Char}
    (hg : ∀ x ∈ g, Text.isBlank x = true) (hg' : ∀ x ∈ g', Text.isBlank x = true)
    (hfront : b = c :: back) (hback : b = front ++ [d]) (hc : Text.isBlank c = false)
    (hd : Text.isBlank d = false) : Text.strip (g ++ (b ++ g')) = b := by
  rw [Text.strip, skipBlanks_append hg, hfront, List.cons_append, skipBlanks_cons hc,
    ← List.cons_append, ← hfront, Text.stripRight, List.reverse_append,
    skipBlanks_append (by simpa using hg'), hback, List.reverse_append, List.reverse_singleton,
    List.singleton_append, skipBlanks_cons hd]
  simp

/-- Cleaning leaves the tokens of a spread text, with white space between them. -/
theorem Spread.exists_spaced (h : Spread ws s) (hw : List.Forall₂ TokenText toks ws)
    (hv : (Json.State.value []).steps? toks = some (.finished v)) :
    ∃ g b, IsSpaces g ∧ Spaced IsSpaces ws b ∧
      ∀ r, dropTrailingCommas .code (dropComments (.text .code) (s ++ r)) =
        g ++ (b ++ dropTrailingCommas .code (dropComments (.text .code) r)) := by
  obtain ⟨ws', hws, hs⟩ := h
  obtain ⟨b₁, hb₁, hcomments⟩ := exists_spaced_of_comments
    (hws.tokenTexts (Json.exists_tokenText_of_mem hw)) hs
  obtain ⟨g, b, hg, hb, hcommas⟩ := exists_spaced_of_commas hw (Json.State.isChain_of_steps hv)
    (Json.State.getLast?_ne_comma hv) hws hb₁
  exact ⟨g, b, hg, hb, fun r => by rw [hcomments, hcommas]⟩

/-- Cleaning leaves the tokens of a decorated text, with white space between them. -/
theorem spaced_clean_of_decorated (hw : List.Forall₂ TokenText toks ws)
    (hv : (Json.State.value []).steps? toks = some (.finished v)) (hs : Decorated ws s) :
    Spaced IsSpaces ws (clean s) := by
  obtain ⟨g, b, g', hg, hspread, hg', rfl⟩ := hs
  obtain ⟨g₁, hg₁, hdrop⟩ := hg.exists_spaces
  obtain ⟨g₂, b₂, hg₂, hb₂, hcleaned⟩ := hspread.exists_spaced hw hv
  obtain ⟨⟨c, back, hfront, hc⟩, front, d, hback, hd⟩ := hb₂.ends (Json.exists_tokenText_of_mem hw)
  have hrest : dropTrailingCommas .code (dropComments (.text .code) g') =
      dropComments (.text .code) g' := by
    simpa [dropTrailingCommas] using dropTrailingCommas_of_isSpaces hg'.isSpaces []
  have hclean : clean (g ++ (b ++ g')) = b₂ := by
    rw [clean, hdrop, dropTrailingCommas_of_isSpaces hg₁, hcleaned, hrest,
      ← List.append_assoc g₁ g₂]
    exact strip_of_blanks (fun x hx => isBlank_of_isSpace (hg₁.append hg₂ x hx))
      (fun x hx => isBlank_of_isSpace (hg'.isSpaces x hx)) hfront hback
      (isBlank_of_mem_firsts hc) (isBlank_of_mem_lasts hd)
  rw [hclean]
  exact hb₂

/-- The cleaned text is read by its tokens. -/
theorem parse_clean (hw : List.Forall₂ TokenText toks ws)
    (hv : (Json.State.value []).steps? toks = some (.finished v)) (hs : Decorated ws s) :
    Json.parse (clean s) = .ok v :=
  Json.parse_of_surrounded hw hv ⟨[], clean s, [], Json.isSpaces_nil,
    spaced_clean_of_decorated hw hv hs, Json.isSpaces_nil, by simp⟩

/-- Cleaning takes decorations away: what is left of a text with comments, white space and commas
added to it are the tokens of the text as they were, and it is read like the text. -/
theorem parse_clean_of_decorated {t s : List Char} {v : Json} (ht : Json.parse t = .ok v)
    (hs : Decorated (Json.tokenTexts t) s) :
    Json.parse (clean s) = .ok v ∧ Spaced IsSpaces (Json.tokenTexts t) (clean s) := by
  obtain ⟨toks, hv, hw, -⟩ := Json.surrounded_of_parse ht
  exact ⟨parse_clean hw hv hs, spaced_clean_of_decorated hw hv hs⟩

/-- A comment with a quote in front, one with a comma in the array, and a comma at its end. -/
theorem parse_clean_of_decorated_list :
    Json.parse "[1, \"//,]\"]".toList = .ok (.array [.scalar (.int 1), .scalar (.str "//,]")]) ∧
      Json.parse (clean "/*\"*/[1,// ,]\n\"//,]\",]//".toList) =
        .ok (.array [.scalar (.int 1), .scalar (.str "//,]")]) := by
  have ht : Json.parse "[1, \"//,]\"]".toList =
      .ok (.array [.scalar (.int 1), .scalar (.str "//,]")]) :=
    Json.parse_eq_ok_iff.mpr ⟨by decide, [.openArray, .scalar (.int 1), .comma,
      .scalar (.str "//,]"), .closeArray], by decide +kernel, rfl⟩
  refine ⟨ht, (parse_clean_of_decorated ht ?_).1⟩
  have htexts : Json.tokenTexts "[1, \"//,]\"]".toList =
      [['['], ['1'], [','], "\"//,]\"".toList, [']']] := by decide +kernel
  rw [htexts]
  have hcommas : WithCommas [['['], ['1'], [','], "\"//,]\"".toList, [']']]
      [['['], ['1'], [','], "\"//,]\"".toList, [','], [']']] :=
    .keep _ (.keep _ (.keep _ (.keep _ (.comma (.inl rfl) (.keep _ .nil)))))
  have hblock : Gap ("/*\"*/".toList) := @Gap.block ['"'] [] (by decide) .nil
  have hline : Gap ("// ,]\n".toList) := @Gap.line " ,]".toList [] '\n' (by decide) rfl .nil
  have hspaced := Spaced.next (w := ['[']) Gap.nil (.next (w := ['1']) Gap.nil
    (.next (w := [',']) hline (.next (w := "\"//,]\"".toList) Gap.nil
      (.next (w := [',']) Gap.nil (.last [']'])))))
  exact ⟨_, _, _, hblock, ⟨_, hcommas, hspaced⟩, @LastGap.line [] [] .nil nofun, rfl⟩

end Cleaning

end TypeSketch.Lenient
