import TypeSketch.Proofs.Declaration.Lines
import TypeSketch.Proofs.Text.Enclosed

/-!
# The tokens of a text

A reader of declarations sees words, marks and texts in quotes.  `Closed` and `Reads` say which
tokens a text is read as, with what may stand behind it, so that longer texts are read part by
part.  Main statements:

* `closed_enclosed`: a text in quotes is one token, whatever is in it and whatever follows;
* `reads_separated`: texts with separators are read one after the other.
-/

namespace TypeSketch.Emission

open Text (Stops enclosed scanQuoted unescaped separated stops_cons)

/-- What a reader of declarations tells apart. -/
inductive Token
  | word (text : List Char)
  | mark (c : Char)
  /-- A text between quotes, without the quotes and the backslashes that escape. -/
  | quoted (text : List Char)
deriving DecidableEq

namespace Token

/-- A character of words and numbers. -/
def isWordChar (c : Char) : Bool :=
  Name.isPart c || c = '.' || c = '-' || c = '+'

def isBlank (c : Char) : Bool :=
  c = ' ' || c = '\n'

def isQuote (c : Char) : Bool :=
  c = '\'' || c = '"'

/-- A character that is a token of its own. -/
def isMark (c : Char) : Bool :=
  !isBlank c && !isQuote c && !isWordChar c

/-- The tokens of a text, unless a quote is left open. -/
def scan : List Char → Option (List Token)
  | [] => some []
  | c :: rest =>
      if isBlank c then scan rest
      else if isQuote c then
        match _h : scanQuoted c rest with
        | none => none
        | some (raw, behind) => (scan behind).map (.quoted (unescaped raw) :: ·)
      else if isWordChar c then
        (scan (rest.dropWhile isWordChar)).map (.word (c :: rest.takeWhile isWordChar) :: ·)
      else (scan rest).map (.mark c :: ·)
termination_by s => s.length
decreasing_by
  · exact Nat.lt_succ_self _
  · exact Nat.lt_succ_of_lt (Text.length_of_scanQuoted _h)
  · exact Nat.lt_succ_of_le (List.dropWhile_suffix _).length_le
  · exact Nat.lt_succ_self _

section Steps

variable {c : Char} {rest : List Char}

theorem scan_blank (hc : isBlank c = true) : scan (c :: rest) = scan rest := by
  rw [scan, if_pos hc]

theorem scan_mark (hc : isMark c = true) : scan (c :: rest) = (scan rest).map (.mark c :: ·) := by
  simp only [isMark, Bool.and_eq_true, Bool.not_eq_true'] at hc
  rw [scan, hc.1.1, hc.1.2, hc.2]
  rfl

theorem scan_quote {raw behind : List Char} (hc : isQuote c = true)
    (h : scanQuoted c rest = some (raw, behind)) :
    scan (c :: rest) = (scan behind).map (.quoted (unescaped raw) :: ·) := by
  have hblank : isBlank c = false := by
    rw [isQuote, Bool.or_eq_true, decide_eq_true_eq, decide_eq_true_eq] at hc
    rcases hc with rfl | rfl <;> decide
  rw [scan, hblank, if_neg Bool.false_ne_true, if_pos hc]
  split
  · rename_i hnone
    rw [h] at hnone
    cases hnone
  · rename_i hsome
    rw [h] at hsome
    cases hsome
    rfl

/-- Words start with no blank and no quote. -/
theorem not_blank_of_isWordChar (hc : isWordChar c = true) :
    isBlank c = false ∧ isQuote c = false := by
  have hne : ∀ d, isWordChar d = false → c ≠ d := by
    rintro d hd rfl
    exact Bool.noConfusion (hd.symm.trans hc)
  simp [isBlank, isQuote, hne ' ' (by decide), hne '\n' (by decide), hne '\'' (by decide),
    hne '"' (by decide)]

theorem scan_word (hc : isWordChar c = true) : scan (c :: rest) =
    (scan (rest.dropWhile isWordChar)).map (.word (c :: rest.takeWhile isWordChar) :: ·) := by
  obtain ⟨hblank, hquote⟩ := not_blank_of_isWordChar hc
  rw [scan, hblank, if_neg Bool.false_ne_true, hquote, if_neg Bool.false_ne_true, if_pos hc]

end Steps

/-- The text is read as these tokens in front of what may follow. -/
def ReadsBefore (follows : List Char → Prop) (t : List Char) (ts : List Token) : Prop :=
  ∀ rest, follows rest → scan (t ++ rest) = (scan rest).map (ts ++ ·)

/-- The text is read as these tokens, whatever follows. -/
abbrev Closed : List Char → List Token → Prop :=
  ReadsBefore fun _ => True

/-- The text is read as these tokens, unless a word goes on behind it. -/
abbrev Reads : List Char → List Token → Prop :=
  ReadsBefore (Stops isWordChar)

section Reading

variable {follows precedes : List Char → Prop} {t u : List Char} {ts us : List Token} {c : Char}

theorem Closed.before (h : Closed t ts) : ReadsBefore follows t ts :=
  fun rest _ => h rest trivial

theorem ReadsBefore.append (ht : ReadsBefore precedes t ts) (hu : ReadsBefore follows u us)
    (h : ∀ rest, follows rest → precedes (u ++ rest)) :
    ReadsBefore follows (t ++ u) (ts ++ us) := by
  intro rest hrest
  rw [List.append_assoc, ht _ (h rest hrest), hu rest hrest, Option.map_map]
  congr 1
  funext vs
  exact (List.append_assoc ts us vs).symm

theorem Closed.append (ht : Closed t ts) (hu : ReadsBefore follows u us) :
    ReadsBefore follows (t ++ u) (ts ++ us) :=
  ReadsBefore.append ht hu fun _ _ => trivial

/-- A word in front of a text that does not go on with it. -/
theorem Reads.append (ht : Reads t ts) (hu : ReadsBefore follows (c :: u) us)
    (hc : isWordChar c = false) : ReadsBefore follows (t ++ c :: u) (ts ++ us) :=
  ReadsBefore.append ht hu fun _ _ => stops_cons.mpr hc

/-- A whole text is read as its tokens. -/
theorem Reads.scan_eq (h : Reads t ts) : scan t = some ts := by
  have hscan := h [] Text.stops_nil
  rwa [List.append_nil, scan, Option.map_some, List.append_nil] at hscan

theorem closed_nil : Closed [] [] := fun rest _ => by
  show scan rest = (scan rest).map id
  rw [Option.map_id, id]

/-- Blanks and marks are read one by one. -/
theorem closed_layout (h : ∀ c ∈ t, isBlank c = true ∨ isMark c = true) :
    Closed t ((t.filter fun c => !isBlank c).map .mark) := by
  induction t with
  | nil => exact closed_nil
  | cons c t ih =>
      obtain ⟨hc, ht⟩ := List.forall_mem_cons.mp h
      intro rest _
      have hrest := ih ht rest trivial
      rw [List.cons_append]
      cases hblank : isBlank c with
      | true => rw [scan_blank hblank, hrest, List.filter_cons_of_neg (by simp [hblank])]
      | false =>
          have hmark : isMark c = true := by simpa [hblank] using hc
          rw [scan_mark hmark, hrest, List.filter_cons_of_pos (by simp [hblank]), Option.map_map]
          rfl

theorem closed_quoted {raw : List Char} (hc : isQuote c = true)
    (h : ∀ rest, scanQuoted c (t ++ rest) = some (raw, rest)) :
    Closed (c :: t) [.quoted (unescaped raw)] :=
  fun rest _ => scan_quote hc (h rest)

/-- A text in quotes is one token, whatever is in it and whatever follows. -/
theorem closed_enclosed (style : QuoteStyle) (s : List Char) :
    Closed (enclosed style.char s) [.quoted s] := by
  have hquote := quote_ne_backslash style
  have hread := closed_quoted (c := style.char) (t := s.flatMap _ ++ [style.char])
    (by cases style <;> decide) fun rest => by
      rw [List.append_assoc, List.singleton_append, Text.scanQuoted_enclosedChars hquote]
  rwa [Text.unescaped_enclosedChars] at hread

theorem reads_word (hne : t ≠ []) (h : ∀ c ∈ t, isWordChar c = true) : Reads t [.word t] := by
  obtain ⟨c, t, rfl⟩ := List.exists_cons_of_ne_nil hne
  obtain ⟨hc, ht⟩ := List.forall_mem_cons.mp h
  intro rest hrest
  rw [List.cons_append, scan_word hc, List.dropWhile_append_of_pos ht,
    List.takeWhile_append_of_pos ht, hrest.takeWhile_eq, hrest.dropWhile_eq, List.append_nil]
  rfl

/-- Texts with separators between them are read one after the other. -/
theorem reads_separated {separator : List Char} {between : List Token}
    (hbetween : Closed (c :: separator) between) (hc : isWordChar c = false)
    {texts : List (List Char)} {tokens : List (List Token)}
    (h : List.Forall₂ Reads texts tokens) :
    Reads (separated (c :: separator) texts) (tokens.intersperse between).flatten := by
  induction h with
  | nil => exact closed_nil.before
  | @cons t ts texts tokens ht htexts ih =>
      cases htexts with
      | nil =>
          have hsingle : ([ts].intersperse between).flatten = ts := List.append_nil ts
          rwa [Text.separated_singleton, hsingle]
      | cons hu htexts => exact ht.append (hbetween.append ih) hc

theorem flatten_intersperse_nil {α : Type} : ∀ xs : List (List α),
    (xs.intersperse []).flatten = xs.flatten
  | [] => rfl
  | [_] => rfl
  | x :: y :: xs => congrArg (x ++ ·) (flatten_intersperse_nil (y :: xs))

/-- Blanks between the texts leave no token. -/
theorem reads_spaced {separator : List Char} (hseparator : Closed (c :: separator) [])
    (hc : isWordChar c = false) {texts : List (List Char)} {tokens : List (List Token)}
    (h : List.Forall₂ Reads texts tokens) :
    Reads (separated (c :: separator) texts) tokens.flatten :=
  flatten_intersperse_nil tokens ▸ reads_separated hseparator hc h

end Reading

end Token

end TypeSketch.Emission
