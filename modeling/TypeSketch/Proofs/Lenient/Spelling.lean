import TypeSketch.Lenient.Spelling
import TypeSketch.Proofs.Json.Printer
import TypeSketch.Proofs.Lenient.Decoration

/-!
# Literals of programs in JSON spelling

`Rendering v r` says that `r` is a literal of a program for the value `v`: JSON, but with strings
in either quotes, bare names, and further words for null.  Main statement: `parse_respell`, in JSON
spelling the literal is read as the value.
-/

namespace TypeSketch.Lenient

open Json (Follows IsSpaces NumeralText Spaced StringBody Surrounded Token TokenText)

section Renderings

/-- What may stand between the quotes `q` of a string, and the characters it stands for: any
character but the quote and the backslash, and the escapes of JSON and of the single quote. -/
inductive ScriptBody (q : Char) : List Char → List Char → Prop
  | nil : ScriptBody q [] []
  | plain {c : Char} {s chars : List Char} (hquote : c ≠ q) (hescape : c ≠ '\\')
      (h : ScriptBody q s chars) : ScriptBody q (c :: s) (c :: chars)
  | escape {e c : Char} {s chars : List Char} (he : Json.escaped? e = some c)
      (h : ScriptBody q s chars) : ScriptBody q ('\\' :: e :: s) (c :: chars)
  | apostrophe {s chars : List Char} (h : ScriptBody q s chars) :
      ScriptBody q ('\\' :: '\'' :: s) ('\'' :: chars)
  | code {a b c d : Char} {n : Nat} {s chars : List Char}
      (hn : Text.hexQuad? a b c d = some n) (hhigh : Text.isHighSurrogate n = false)
      (hlow : Text.isLowSurrogate n = false) (h : ScriptBody q s chars) :
      ScriptBody q ('\\' :: 'u' :: a :: b :: c :: d :: s) (Char.ofNat n :: chars)

/-- The words for null beside `null`. -/
def missingWords : List (List Char) := ["undefined".toList, "NaN".toList, "Infinity".toList]

/-- The texts of a token in a literal. -/
inductive ScriptText : Token → List Char → Prop
  | mark {c : Char} {t : Token} (h : Json.mark? c = some t) : ScriptText t [c]
  | word {w : List Char} {t : Token} (h : (w, t) ∈ Json.plainWords) : ScriptText t w
  | missing {w : List Char} (h : w ∈ missingWords) : ScriptText .null w
  | number {n : Json.Numeral} {w : List Char} (h : NumeralText n w) :
      ScriptText (.scalar n.literal) w
  | string {q : Char} {body chars : List Char} (hq : isQuote q = true)
      (h : ScriptBody q body chars) :
      ScriptText (.scalar (.str (String.ofList chars))) (q :: (body ++ [q]))

/-- The texts of tokens in a row.  In front of a colon an identifier may stand for itself. -/
inductive ScriptTexts : List Token → List (List Char) → Prop
  | nil : ScriptTexts [] []
  | name {w : List Char} {toks : List Token} {ws : List (List Char)} (hw : Name.isWord w = true)
      (h : ScriptTexts (.colon :: toks) ws) :
      ScriptTexts (.scalar (.str (String.ofList w)) :: .colon :: toks) (w :: ws)
  | token {t : Token} {w : List Char} {toks : List Token} {ws : List (List Char)}
      (ht : ScriptText t w) (h : ScriptTexts toks ws) : ScriptTexts (t :: toks) (w :: ws)

/-- A literal for a value. -/
def Rendering (v : Json) (r : List Char) : Prop :=
  ∃ toks ws, (Json.State.value []).steps? toks = some (.finished v) ∧ ScriptTexts toks ws ∧
    Surrounded IsSpaces ws r

end Renderings

section Strings

variable {q : Char} {body chars : List Char}

theorem charOfCode_of_not_surrogate {n : Nat} (hhigh : Text.isHighSurrogate n = false)
    (hlow : Text.isLowSurrogate n = false) : Text.charOfCode n = Char.ofNat n := by
  simp [Text.charOfCode, hhigh, hlow]

theorem readCode_of_hexQuad {a b c d : Char} {n : Nat} (hn : Text.hexQuad? a b c d = some n)
    (hhigh : Text.isHighSurrogate n = false) (hlow : Text.isLowSurrogate n = false)
    (s : List Char) : readCode (a :: b :: c :: d :: s) = (Char.ofNat n, 4) := by
  have hcode : codeAt? (a :: b :: c :: d :: s) = some n := by simpa [codeAt?] using hn
  rw [readCode, hcode, ← charOfCode_of_not_surrogate hhigh hlow]

/-- A one-letter escape is read as in JSON, in both quotes. -/
theorem readEscape_of_escaped {e c : Char} (hq : isQuote q = true)
    (he : Json.escaped? e = some c) (more : List Char) : readEscape q e more = (c, 0) := by
  have hu := Json.ne_u_of_escaped? he
  have hsingle : e ≠ '\'' := by
    rintro rfl
    cases he
  by_cases hquote : e = q
  · -- then the quotes are double, and the escape is that of the double quote
    subst hquote
    obtain rfl : e = '"' := by simpa [isQuote, hsingle] using hq
    cases he
    rfl
  · simp [readEscape, hquote, hsingle, hu, he]

theorem readString_plain {c : Char} (hescape : c ≠ '\\') (s : List Char) :
    readString q (c :: s) =
      if c = q then ([], s) else (c :: (readString q s).1, (readString q s).2) := by
  rw [readString]
  · exact fun h _ => hescape h
  · exact fun _ _ h _ => hescape h

/-- A string is read up to its closing quote. -/
theorem ScriptBody.read (hq : isQuote q = true) (h : ScriptBody q body chars)
    (rest : List Char) : readString q (body ++ q :: rest) = (chars, rest) := by
  have hqu : q ≠ '\\' ∧ q ≠ 'u' := by
    constructor <;> rintro rfl <;> cases hq
  induction h with
  | nil => rw [List.nil_append, readString_plain hqu.1, if_pos rfl]
  | plain hquote hescape h ih => rw [List.cons_append, readString_plain hescape, if_neg hquote, ih]
  | escape he h ih =>
      rw [List.cons_append, List.cons_append, readString, readEscape_of_escaped hq he]
      simp [ih]
  | apostrophe h ih =>
      rw [List.cons_append, List.cons_append, readString, readEscape, if_pos (.inr rfl)]
      simp [ih]
  | code hn hhigh hlow h ih =>
      rw [List.cons_append, List.cons_append, readString, readEscape,
        if_neg (by simp [hqu.2.symm]), if_pos rfl]
      simp [readCode_of_hexQuad hn hhigh hlow, ih]

end Strings

section Words

variable {before : Option Char} {w rest : List Char}

/-- The character in front of what follows `w`. -/
def lastOf (before : Option Char) (w : List Char) : Option Char := w.getLast?.or before

theorem lastOf_cons (before : Option Char) (c : Char) (w : List Char) :
    lastOf before (c :: w) = lastOf (some c) w := by
  cases w with
  | nil => rfl
  | cons d w => simp [lastOf, List.getLast?_cons]

theorem lastOf_append (before : Option Char) (w w' : List Char) :
    lastOf before (w ++ w') = lastOf (lastOf before w) w' := by
  induction w generalizing before with
  | nil => rfl
  | cons c w ih => rw [List.cons_append, lastOf_cons, ih, lastOf_cons]

theorem lastOf_concat (before : Option Char) (w : List Char) (c : Char) :
    lastOf before (w ++ [c]) = some c := by
  rw [lastOf_append]
  rfl

theorem respellAfter_cons {c : Char} (hquote : isQuote c = false)
    (hword : (Name.isStart c && startsWord before) = false) (rest : List Char) :
    respellAfter before (c :: rest) = c :: respellAfter (some c) rest := by
  rw [respellAfter]
  simp [hquote, hword]

/-- Text without quotes and letters stays. -/
theorem respellAfter_plain (hw : ∀ c ∈ w, isQuote c = false ∧ Name.isStart c = false)
    (rest : List Char) :
    respellAfter before (w ++ rest) = w ++ respellAfter (lastOf before w) rest := by
  induction w generalizing before with
  | nil => rfl
  | cons c w ih =>
      obtain ⟨hquote, hstart⟩ := hw c List.mem_cons_self
      rw [List.cons_append, respellAfter_cons hquote (by rw [hstart, Bool.false_and]),
        ih fun d hd => hw d (List.mem_cons_of_mem c hd), lastOf_cons, List.cons_append]

/-- A bare word ends in front of such a text. -/
def EndsWord (rest : List Char) : Prop := ∀ c ∈ rest.head?, Name.isPart c = false

theorem respellAfter_word (hw : Name.isWord w = true) (hbefore : startsWord before = true)
    (hrest : EndsWord rest) :
    respellAfter before (w ++ rest) =
      respellWord w rest ++ respellAfter (lastOf before w) rest := by
  cases w with
  | nil => cases hw
  | cons c w =>
      simp only [Name.isWord, Bool.and_eq_true, List.all_eq_true] at hw
      obtain ⟨hstart, hpart⟩ := hw
      have hquote : isQuote c = false := by
        rw [Bool.eq_false_iff]
        intro h
        simp only [isQuote, Bool.or_eq_true, decide_eq_true_eq] at h
        rcases h with rfl | rfl <;> revert hstart <;> decide
      obtain ⟨htake, hdrop⟩ := span_append hpart hrest
      rw [List.cons_append, respellAfter]
      simp only [hquote, hstart, hbefore, Bool.and_self, if_true, htake, hdrop]
      rw [lastOf, List.getLast?_cons, Option.some_or]
      rfl

theorem startsWord_digit {c : Char} (hc : c.isDigit = true) : startsWord (some c) = false := by
  have hall : ∀ d ∈ Json.digits, startsWord (some d) = false := by decide
  exact hall c (Json.mem_digits_of_isDigit hc)

/-- A number stays.  The letter of its exponent is no word, for it stands behind a digit. -/
theorem respellAfter_number {n : Json.Numeral} (h : NumeralText n w) (rest : List Char) :
    respellAfter before (w ++ rest) = w ++ respellAfter (lastOf before w) rest := by
  obtain ⟨hn, exponent, hexponent, rfl⟩ := h
  have hplain : ∀ c ∈ Json.digits ++ ['-', '+', '.'],
      isQuote c = false ∧ Name.isStart c = false := by decide
  have hfront : ∀ c ∈ n.textWith [], isQuote c = false ∧ Name.isStart c = false := by
    intro c hc
    have hmem := hn.chars c hc
    exact hplain c (by simp at hmem ⊢; tauto)
  obtain ⟨front, d, hlast, hd⟩ := hn.last
  rw [Json.Numeral.textWith_eq, List.append_assoc, respellAfter_plain hfront, lastOf_append]
  generalize n.exponent = e at hexponent
  cases hexponent with
  | none => rw [List.nil_append, List.append_nil]; rfl
  | @some mark sign ds hmark hsign _ hdigits =>
      have hback : ∀ c ∈ sign ++ ds, isQuote c = false ∧ Name.isStart c = false := by
        intro c hc
        apply hplain
        rcases List.mem_append.mp hc with hc | hc
        · rcases hsign with rfl | rfl | rfl <;> simp at hc <;> rw [hc] <;> decide
        · exact List.mem_append_left _ (Json.mem_digits_of_isDigit (hdigits c hc))
      have hbefore : startsWord (lastOf before (n.textWith [])) = false := by
        rw [hlast, lastOf_concat, startsWord_digit hd]
      have hquote : isQuote mark = false := by rcases hmark with rfl | rfl <;> decide
      rw [List.cons_append, respellAfter_cons hquote (by rw [hbefore, Bool.and_false]),
        respellAfter_plain hback, lastOf_cons]
      simp

end Words

section Tokens

variable {before : Option Char} {t : Token} {toks : List Token} {w g b rest : List Char}
  {ws : List (List Char)}

theorem respellAfter_string {q : Char} {body chars : List Char} (hq : isQuote q = true)
    (h : ScriptBody q body chars) (rest : List Char) :
    respellAfter before (q :: (body ++ [q]) ++ rest) =
      Text.jsonString chars ++ respellAfter (some q) rest := by
  rw [List.cons_append, respellAfter, if_pos hq, List.append_assoc, List.singleton_append,
    h.read hq]

/-- No colon follows, so that a word in front is no name. -/
def NoColon (rest : List Char) : Prop := (Text.skipBlanks rest).head? ≠ some ':'

theorem isWord_of_mem_plainWords {w : List Char} {t : Token} (h : (w, t) ∈ Json.plainWords) :
    Name.isWord w = true := by
  have hall : ∀ x ∈ Json.plainWords, Name.isWord x.1 = true := by decide
  exact hall _ h

/-- A token of a literal becomes a text of the token. -/
theorem ScriptText.respell (h : ScriptText t w)
    (hbefore : t.isAtom = true → startsWord before = true)
    (hrest : t.isAtom = true → EndsWord rest)
    (hcolon : t.isAtom = true → (∀ s, t ≠ .scalar (.str s)) → NoColon rest) :
    ∃ w', TokenText t w' ∧
      respellAfter before (w ++ rest) = w' ++ respellAfter (lastOf before w) rest := by
  cases h with
  | @mark c t h =>
      have hall : ∀ c ∈ Json.marks, isQuote c = false ∧ Name.isStart c = false := by decide
      obtain ⟨hquote, hstart⟩ := hall c (Json.mem_marks_of_mark? h)
      exact ⟨[c], .mark h, respellAfter_plain (by simp [hquote, hstart]) rest⟩
  | word h =>
      have hatom : ∀ x ∈ Json.plainWords, x.2.isAtom = true ∧ ∀ s, x.2 ≠ .scalar (.str s) := by
        simp [Json.plainWords, Token.isAtom]
      obtain ⟨ht, hstring⟩ := hatom _ h
      refine ⟨w, .word (List.mem_append_left _ h), ?_⟩
      rw [respellAfter_word (isWord_of_mem_plainWords h) (hbefore ht) (hrest ht), respellWord,
        if_neg (hcolon ht hstring), if_neg]
      have hall : ∀ x ∈ Json.plainWords, x.1 ∉ missingWords := by decide
      simpa [missingWords] using hall _ h
  | missing h =>
      have hword : ∀ w ∈ missingWords, Name.isWord w = true := by decide
      refine ⟨"null".toList, .word (by decide), ?_⟩
      rw [respellAfter_word (hword w h) (hbefore rfl) (hrest rfl), respellWord,
        if_neg (hcolon rfl (by simp)), if_pos (by simpa [missingWords] using h)]
  | number h => exact ⟨w, .number h, respellAfter_number h rest⟩
  | @string q body chars hq h =>
      refine ⟨_, Json.tokenText_jsonString chars, ?_⟩
      rw [respellAfter_string hq h, lastOf_cons, lastOf_concat]

/-- What is no value by itself is written as a mark. -/
theorem ScriptText.exists_mark (h : ScriptText t w) (ht : t.isAtom = false) :
    ∃ c, w = [c] ∧ Json.mark? c = some t := by
  cases h with
  | mark h => exact ⟨_, rfl, h⟩
  | word h =>
      have hall : ∀ x ∈ Json.plainWords, x.2.isAtom = true := by decide
      rw [hall _ h] at ht
      cases ht
  | _ => cases ht

theorem ScriptTexts.exists_mark (h : ScriptTexts (t :: toks) ws) (ht : t.isAtom = false) :
    ∃ c us, ws = [c] :: us ∧ Json.mark? c = some t := by
  cases h with
  | name => cases ht
  | @token _ w _ us hw _ =>
      obtain ⟨c, rfl, hc⟩ := hw.exists_mark ht
      exact ⟨c, us, rfl, hc⟩

theorem respellAfter_isSpaces (hg : IsSpaces g) (rest : List Char) :
    respellAfter before (g ++ rest) = g ++ respellAfter (lastOf before g) rest := by
  have hall : ∀ c ∈ Json.spaces, isQuote c = false ∧ Name.isStart c = false := by decide
  exact respellAfter_plain (fun c hc => hall c (Json.mem_spaces_of_isSpace (hg c hc))) rest

/-- Behind white space a word may start, and in front of it one ends. -/
theorem startsWord_lastOf_isSpaces (hg : IsSpaces g) (hbefore : startsWord before = true) :
    startsWord (lastOf before g) = true := by
  rcases List.eq_nil_or_concat g with rfl | ⟨front, c, rfl⟩
  · exact hbefore
  · have hall : ∀ c ∈ Json.spaces, startsWord (some c) = true := by decide
    rw [List.concat_eq_append, lastOf_concat]
    exact hall c (Json.mem_spaces_of_isSpace (hg c (by simp)))

theorem EndsWord.isSpaces_append (hg : IsSpaces g) (h : EndsWord rest) : EndsWord (g ++ rest) := by
  cases g with
  | nil => exact h
  | cons c g =>
      rintro _ ⟨⟩
      have hall : ∀ c ∈ Json.spaces, Name.isPart c = false := by decide
      exact hall c (Json.mem_spaces_of_isSpace (hg c List.mem_cons_self))

theorem endsWord_mark {c : Char} (h : Json.mark? c = some t) (s : List Char) :
    EndsWord (c :: s) := by
  rintro _ ⟨⟩
  have hall : ∀ c ∈ Json.marks, Name.isPart c = false := by decide
  exact hall c (Json.mem_marks_of_mark? h)

theorem startsWord_mark {c : Char} (h : Json.mark? c = some t) : startsWord (some c) = true := by
  have hall : ∀ c ∈ Json.marks, startsWord (some c) = true := by decide
  exact hall c (Json.mem_marks_of_mark? h)

/-- Blanks and then a mark. -/
theorem head?_skipBlanks_mark {c : Char} (hg : IsSpaces g) (h : Json.mark? c = some t)
    (s : List Char) : (Text.skipBlanks (g ++ c :: s)).head? = some c := by
  have hall : ∀ c ∈ Json.marks, Text.isBlank c = false := by decide
  have hc := hall c (Json.mem_marks_of_mark? h)
  rw [skipBlanks_append fun d hd => isBlank_of_isSpace (hg d hd), skipBlanks_cons hc,
    List.head?_cons]

/-- Behind a value by itself its word ends, for a mark follows. -/
theorem ScriptTexts.endsWord (h : ScriptTexts (t :: toks) ws) (ht : t.isAtom = false)
    (hb : Spaced IsSpaces ws b) (hg : IsSpaces g) (rest : List Char) :
    EndsWord (g ++ (b ++ rest)) := by
  obtain ⟨c, us, rfl, hc⟩ := h.exists_mark ht
  obtain ⟨r, rfl⟩ := hb.exists_append
  exact EndsWord.isSpaces_append hg (endsWord_mark hc (r ++ rest))

theorem ScriptTexts.noColon (h : ScriptTexts (t :: toks) ws) (ht : t.isAtom = false)
    (hcolon : t ≠ .colon) (hb : Spaced IsSpaces ws b) (hg : IsSpaces g) (rest : List Char) :
    NoColon (g ++ (b ++ rest)) := by
  obtain ⟨c, us, rfl, hc⟩ := h.exists_mark ht
  obtain ⟨r, rfl⟩ := hb.exists_append
  have hhead := head?_skipBlanks_mark hg hc (r ++ rest)
  intro hcolon'
  rw [List.append_assoc, List.singleton_append, hhead] at hcolon'
  cases hcolon'
  exact hcolon (Option.some.inj hc).symm

/-- What is written as JSON in place of `b`, if `before` stands in front and `rest` behind. -/
def Respells (toks : List Token) (before : Option Char) (b rest : List Char) : Prop :=
  ∃ ws' b', List.Forall₂ TokenText toks ws' ∧ Spaced IsSpaces ws' b' ∧
    respellAfter before (b ++ rest) = b' ++ respellAfter (lastOf before b) rest

theorem Respells.next {t' : Token} {w' : List Char} (hw' : TokenText t w') (hg : IsSpaces g)
    (hw : respellAfter before (w ++ (g ++ (b ++ rest))) =
      w' ++ respellAfter (lastOf before w) (g ++ (b ++ rest)))
    (h : Respells (t' :: toks) (lastOf (lastOf before w) g) b rest) :
    Respells (t :: t' :: toks) before (w ++ (g ++ b)) rest := by
  obtain ⟨ws, b', hws, hb', hrespell⟩ := h
  refine ⟨w' :: ws, w' ++ (g ++ b'), .cons hw' hws, .next hg hb', ?_⟩
  simp only [List.append_assoc, lastOf_append]
  rw [hw, respellAfter_isSpaces hg, hrespell]

/-- The tokens of a literal are respelled one by one. -/
theorem ScriptTexts.respells (h : ScriptTexts toks ws) (hchain : toks.IsChain Follows)
    (hb : Spaced IsSpaces ws b) (hrest : EndsWord rest) (hcolon : NoColon rest)
    (hbefore : ∀ t ∈ toks.head?, t.isAtom = true → startsWord before = true) :
    Respells toks before b rest := by
  -- what stands in front matters only to a token that is a value by itself, which starts a word
  induction h generalizing before b with
  | nil => cases hb
  | @name w toks ws hw h ih =>
      obtain ⟨c, us, rfl, hc⟩ := h.exists_mark rfl
      cases hb with
      | @next _ g s _ hg hs =>
          obtain ⟨r, rfl⟩ := hs.exists_append
          obtain rfl : c = ':' := Json.mark?_injective hc rfl
          refine (ih hchain.of_cons hs ?_).next (Json.tokenText_jsonString w) hg ?_
          · rintro _ ⟨⟩ ⟨⟩
          · have hends := EndsWord.isSpaces_append hg (endsWord_mark hc (r ++ rest))
            rw [List.append_assoc, List.singleton_append] at *
            rw [respellAfter_word hw (hbefore _ rfl rfl) hends, respellWord,
              if_pos (head?_skipBlanks_mark hg hc (r ++ rest))]
  | @token t w toks ws ht h ih =>
      cases hb with
      | last =>
          cases h
          obtain ⟨w', hw', hrespell⟩ := ht.respell (hbefore t rfl) (fun _ => hrest)
            fun _ _ => hcolon
          exact ⟨[w'], w', .cons hw' .nil, .last w', hrespell⟩
      | @next _ g s _ hg hs =>
          cases toks with
          | nil =>
              cases h
              cases hs
          | cons t' toks =>
              have hfollows := (List.isChain_cons_cons.mp hchain).1
              have hends : t.isAtom = true → EndsWord (g ++ (s ++ rest)) := fun hatom =>
                h.endsWord (hfollows.atom hatom) hs hg rest
              have hcolon : t.isAtom = true → (∀ name, t ≠ .scalar (.str name)) →
                  NoColon (g ++ (s ++ rest)) := by
                intro hatom hstring
                refine h.noColon (hfollows.atom hatom) (fun hcolon => ?_) hs hg rest
                obtain ⟨name, rfl⟩ := hfollows.colon hcolon
                exact hstring name rfl
              obtain ⟨w', hw', hrespell⟩ := ht.respell (hbefore t rfl) hends hcolon
              refine (ih hchain.of_cons hs ?_).next hw' hg hrespell
              rintro _ ⟨⟩ hatom
              -- in front of a value by itself there is a mark
              obtain ⟨c, rfl, hc⟩ := ht.exists_mark (hfollows.not_atom hatom)
              exact startsWord_lastOf_isSpaces hg (startsWord_mark hc)

end Tokens

section Ends

variable {before : Option Char} {w s : List Char} {ws : List (List Char)} {t : Token}

/-- Every string in the text has its end. -/
inductive Closed : List Char → Prop
  | nil : Closed []
  | plain {c : Char} {s : List Char} (hc : isQuote c = false) (h : Closed s) : Closed (c :: s)
  | string {q : Char} {body s : List Char} (hq : isQuote q = true)
      (hbody : ∀ rest, (readString q (body ++ q :: rest)).2 = rest) (h : Closed s) :
      Closed (q :: (body ++ q :: s))

theorem Closed.append (hw : ∀ c ∈ w, isQuote c = false) (h : Closed s) : Closed (w ++ s) := by
  induction w with
  | nil => exact h
  | cons c w ih =>
      exact .plain (hw c List.mem_cons_self) (ih fun d hd => hw d (List.mem_cons_of_mem c hd))

theorem Closed.dropWhile (h : Closed s) : Closed (s.dropWhile Name.isPart) := by
  induction h with
  | nil => exact .nil
  | @plain c s hc h ih =>
      rw [List.dropWhile_cons]
      split
      · exact ih
      · exact .plain hc h
  | @string q body s hq hbody h ih =>
      have hpart : Name.isPart q = false := by
        simp only [isQuote, Bool.or_eq_true, decide_eq_true_eq] at hq
        rcases hq with rfl | rfl <;> decide
      rw [List.dropWhile_cons_of_neg (by simp [hpart])]
      exact .string hq hbody h

/-- A semicolon behind closed strings stays where it is. -/
theorem Closed.exists_respellAfter (h : Closed s) (before : Option Char) :
    ∃ out, respellAfter before (s ++ [';']) = out ++ [';'] := by
  -- a word is skipped as a whole, so the rest is not the tail and the length decreases instead
  induction hn : s.length using Nat.strongRecOn generalizing s before with
  | ind n ih =>
      subst hn
      cases h with
      | nil => exact ⟨[], by rw [List.nil_append, respellAfter_cons rfl rfl, respellAfter]⟩
      | @plain c s hc h =>
          rw [List.cons_append, respellAfter]
          by_cases hword : (Name.isStart c && startsWord before) = true
          · have hlength := (List.dropWhile_sublist (l := s) Name.isPart).length_le
            have hdrop : (s ++ [';']).dropWhile Name.isPart = s.dropWhile Name.isPart ++ [';'] := by
              rw [List.dropWhile_append]
              split
              next hnil => rw [List.isEmpty_iff.mp hnil]; rfl
              next => rfl
            simp only [hc, hword, hdrop, if_true]
            obtain ⟨out, hout⟩ := ih _ (by rw [List.length_cons]; omega) h.dropWhile
              (c :: (s ++ [';']).takeWhile Name.isPart).getLast? rfl
            rw [hout]
            exact ⟨_, (List.append_assoc _ out [';']).symm⟩
          · obtain ⟨out, hout⟩ := ih s.length (by simp) h (some c) rfl
            simp only [hc, hword, hout]
            exact ⟨c :: out, rfl⟩
      | @string q body s hq hbody h =>
          obtain ⟨out, hout⟩ := ih s.length (by simp; omega) h (some q) rfl
          rw [List.cons_append, List.append_assoc, List.cons_append, respellAfter, if_pos hq]
          simp only [hbody, hout]
          exact ⟨_, (List.append_assoc _ out [';']).symm⟩

/-- The escape of a code takes its four digits, whatever the code is. -/
theorem readString_code {a b c d : Char} {n : Nat} (hn : Text.hexQuad? a b c d = some n)
    (s : List Char) : (readString '"' ('\\' :: 'u' :: a :: b :: c :: d :: s)).2 =
      (readString '"' s).2 := by
  have hcode : codeAt? (a :: b :: c :: d :: s) = some n := by simpa [codeAt?] using hn
  have hread : readEscape '"' 'u' (a :: b :: c :: d :: s) = (Text.charOfCode n, 4) := by
    rw [readEscape, if_neg (by decide), if_pos rfl, readCode, hcode]
  rw [readString, hread]
  rfl

/-- The strings of JSON have their end, whatever their escapes stand for. -/
theorem readString_stringBody {body chars : List Char} (h : StringBody body chars)
    (rest : List Char) : (readString '"' (body ++ '"' :: rest)).2 = rest := by
  induction h with
  | nil => rw [List.nil_append, readString_plain (by decide), if_pos rfl]
  | plain hquote hescape hcontrol h ih =>
      rw [List.cons_append, readString_plain hescape, if_neg hquote]
      exact ih
  | escape he h ih =>
      rw [List.cons_append, List.cons_append, readString, readEscape_of_escaped rfl he]
      simpa using ih
  | code hn hlone h ih =>
      simp only [List.cons_append]
      rw [readString_code hn]
      exact ih
  | pair hn hhigh hn' hlow h ih =>
      simp only [List.cons_append]
      rw [readString_code hn, readString_code hn']
      exact ih

theorem Closed.append_tokenText (ht : TokenText t w) (h : Closed s) : Closed (w ++ s) := by
  rcases ht.bare_or_string with hw | ⟨body, chars, hbody, rfl⟩
  · have hall : ∀ c ∈ Json.bareChars, isQuote c = false := by decide
    exact h.append fun c hc => hall c (hw c hc)
  · have hstring := Closed.string (q := '"') rfl (readString_stringBody hbody) h
    simpa using hstring

/-- Tokens with white space between them have all their strings closed. -/
theorem closed_of_spaced (hw : ∀ w ∈ ws, ∃ t, TokenText t w) (h : Spaced IsSpaces ws s) :
    Closed s := by
  induction h with
  | last w =>
      obtain ⟨t, ht⟩ := hw w List.mem_cons_self
      rw [← List.append_nil w]
      exact Closed.nil.append_tokenText ht
  | @next w g s ws hg h ih =>
      obtain ⟨t, ht⟩ := hw w List.mem_cons_self
      have hs := ih fun u hu => hw u (List.mem_cons_of_mem w hu)
      have hall : ∀ c ∈ Json.spaces, isQuote c = false := by decide
      have hgap := hs.append fun c hc => hall c (Json.mem_spaces_of_isSpace (hg c hc))
      exact hgap.append_tokenText ht

end Ends

section Reading

/-- A literal for a value is read, in JSON spelling, as the value. -/
theorem parse_respell_of_rendering {v : Json} {r : List Char} (h : Rendering v r) :
    Json.parse (respell r) = .ok v := by
  obtain ⟨toks, ws, hv, hws, g, b, g', hg, hb, hg', rfl⟩ := h
  have hends : EndsWord g' := by
    rw [← List.append_nil g']
    exact EndsWord.isSpaces_append hg' nofun
  have hcolon : NoColon g' := by
    rw [NoColon, ← List.append_nil g', skipBlanks_append fun c hc => isBlank_of_isSpace (hg' c hc)]
    nofun
  have hbefore : startsWord (lastOf none g) = true := startsWord_lastOf_isSpaces hg rfl
  obtain ⟨ws', b', hws', hb', hrespell⟩ := hws.respells (Json.State.isChain_of_steps hv) hb hends
    hcolon fun _ _ _ => hbefore
  have hback : respellAfter (lastOf (lastOf none g) b) g' = g' := by
    rw [← List.append_nil g', respellAfter_isSpaces hg', respellAfter]
  rw [respell, respellAfter_isSpaces hg, hrespell, hback]
  exact Json.parse_of_surrounded hws' hv ⟨g, b', g', hg, hb', hg', rfl⟩

/-- Whether no escape in the text is that of a half of a surrogate pair. -/
def hasWholeCodes : List Char → Bool
  | '\\' :: 'u' :: rest =>
      (codeAt? rest).all (fun n => !Text.isHighSurrogate n && !Text.isLowSurrogate n) &&
        hasWholeCodes rest
  | '\\' :: _ :: rest => hasWholeCodes rest
  | _ :: rest => hasWholeCodes rest
  | [] => true

theorem hasWholeCodes_cons {c : Char} (hc : c ≠ '\\') (s : List Char) :
    hasWholeCodes (c :: s) = hasWholeCodes s := by
  rw [hasWholeCodes]
  · exact fun _ h _ => hc h
  · exact fun _ _ h _ => hc h

theorem hasWholeCodes_code {a b c d : Char} {n : Nat} (hn : Text.hexQuad? a b c d = some n)
    (s : List Char) : hasWholeCodes ('\\' :: 'u' :: a :: b :: c :: d :: s) =
      ((!Text.isHighSurrogate n && !Text.isLowSurrogate n) && hasWholeCodes s) := by
  have hcode : codeAt? (a :: b :: c :: d :: s) = some n := by simpa [codeAt?] using hn
  have hne := fun x hx => (hexQuad_ne hn x hx).2
  rw [hasWholeCodes, hcode, hasWholeCodes_cons (hne a (by simp)),
    hasWholeCodes_cons (hne b (by simp)), hasWholeCodes_cons (hne c (by simp)),
    hasWholeCodes_cons (hne d (by simp))]
  rfl

/-- Without such escapes, strings of JSON are strings of literals. -/
theorem scriptBody_of_stringBody {body chars : List Char} (h : StringBody body chars)
    (hcodes : hasWholeCodes (body ++ ['"']) = true) : ScriptBody '"' body chars := by
  induction h with
  | nil => exact .nil
  | plain hquote hescape hcontrol h ih =>
      rw [List.cons_append, hasWholeCodes_cons hescape] at hcodes
      exact .plain hquote hescape (ih hcodes)
  | @escape e c s chars he h ih =>
      refine .escape he (ih ?_)
      rw [List.cons_append, List.cons_append, hasWholeCodes] at hcodes
      · exact hcodes
      · rintro rfl
        cases he
  | code hn hlone h ih =>
      simp only [List.cons_append, hasWholeCodes_code hn, Bool.and_eq_true,
        Bool.not_eq_true'] at hcodes
      obtain ⟨⟨hhigh, hlow⟩, hcodes⟩ := hcodes
      rw [charOfCode_of_not_surrogate hhigh hlow]
      exact .code hn hhigh hlow (ih hcodes)
  | pair hn hhigh hn' hlow h ih =>
      simp [hasWholeCodes_code hn, hhigh] at hcodes

/-- A text without the words for numbers and without escapes of halves of surrogate pairs. -/
def IsStrict (s : List Char) : Prop :=
  ∀ w ∈ Json.tokenTexts s, w ∉ Json.numberWords.map (·.1) ∧ hasWholeCodes w = true

theorem scriptText_of_tokenText {t : Token} {w : List Char} (h : TokenText t w)
    (hword : w ∉ Json.numberWords.map (·.1)) (hcodes : hasWholeCodes w = true) :
    ScriptText t w := by
  cases h with
  | mark h => exact .mark h
  | word h =>
      rcases List.mem_append.mp h with h | h
      · exact .word h
      · exact absurd (List.mem_map_of_mem h) hword
  | number h => exact .number h
  | string h =>
      rw [hasWholeCodes_cons (by decide)] at hcodes
      exact .string rfl (scriptBody_of_stringBody h hcodes)

theorem scriptTexts_of_tokenTexts {toks : List Token} {ws : List (List Char)}
    (h : List.Forall₂ TokenText toks ws)
    (hstrict : ∀ w ∈ ws, w ∉ Json.numberWords.map (·.1) ∧ hasWholeCodes w = true) :
    ScriptTexts toks ws := by
  induction h with
  | nil => exact .nil
  | cons ht _ ih =>
      obtain ⟨⟨hword, hcodes⟩, hrest⟩ := List.forall_mem_cons.mp hstrict
      exact .token (scriptText_of_tokenText ht hword hcodes) (ih hrest)

/-- Strict JSON is a literal for its value. -/
theorem rendering_of_isStrict {v : Json} {s : List Char} (h : Json.parse s = .ok v)
    (hs : IsStrict s) : Rendering v s := by
  obtain ⟨toks, hv, hw, hsurrounded⟩ := Json.surrounded_of_parse h
  exact ⟨toks, _, hv, scriptTexts_of_tokenTexts hw hs, hsurrounded⟩

/-- A literal for a value is read, in JSON spelling, as the value, and strict JSON keeps its
value. -/
theorem parse_respell (v : Json) (r : List Char) :
    (Rendering v r → Json.parse (respell r) = .ok v) ∧
      (Json.parse r = .ok v → IsStrict r → Json.parse (respell r) = .ok v) :=
  ⟨parse_respell_of_rendering, fun h hs => parse_respell_of_rendering (rendering_of_isStrict h hs)⟩

/-- A bare name that is a word for null elsewhere, an escape, and a quote in other quotes. -/
theorem parse_respell_bare_name :
    Json.parse (respell "\x7bNaN:['\\u0041\"', undefined]\x7d".toList) =
        .ok (.object [("NaN", .array [.scalar (.str "A\""), .null])]) ∧
      Json.parse (respell "[-3, \"'\"]".toList) =
        .ok (.array [.scalar (.int (-3)), .scalar (.str "'")]) := by
  have ht : Json.parse "[-3, \"'\"]".toList =
      .ok (.array [.scalar (.int (-3)), .scalar (.str "'")]) :=
    Json.parse_eq_ok_iff.mpr ⟨by decide, [.openArray, .scalar (.int (-3)), .comma,
      .scalar (.str "'"), .closeArray], by decide +kernel, rfl⟩
  refine ⟨(parse_respell _ _).1 ?_, (parse_respell _ _).2 ht ?_⟩
  · have hbody : ScriptBody '\'' "\\u0041\"".toList ['A', '"'] :=
      @ScriptBody.code '\'' '0' '0' '4' '1' 0x41 _ _ (by decide) rfl rfl
        (.plain (by decide) (by decide) .nil)
    have hbare : Name.isWord ['N', 'a', 'N'] = true := by decide
    have htexts := ScriptTexts.token (.mark (c := '\x7b') rfl) (.name hbare
      (.token (.mark (c := ':') rfl) (.token (.mark (c := '[') rfl)
        (.token (.string (q := '\'') rfl hbody) (.token (.mark (c := ',') rfl)
          (.token (.missing (w := "undefined".toList) (by decide)) (.token (.mark (c := ']') rfl)
            (.token (.mark (c := '\x7d') rfl) .nil))))))))
    have hnone := Json.isSpaces_nil
    have hspace : IsSpaces [' '] := .cons rfl hnone
    exact ⟨_, _, rfl, htexts, [], _, [], hnone, .next hnone (.next hnone (.next hnone (.next hnone
      (.next hnone (.next hspace (.next hnone (.next hnone (.last _)))))))), hnone, rfl⟩
  · have htexts : Json.tokenTexts "[-3, \"'\"]".toList =
        [['['], ['-', '3'], [','], "\"'\"".toList, [']']] := by decide +kernel
    rw [IsStrict, htexts]
    decide

end Reading

end TypeSketch.Lenient
