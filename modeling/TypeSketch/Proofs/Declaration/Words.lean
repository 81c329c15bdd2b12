import TypeSketch.Proofs.Declaration.Naming
import TypeSketch.Proofs.Json.Number
import TypeSketch.Proofs.Text.Apart

/-!
# Words of type expressions

Null, the kinds, truth values, numbers and declared objects are written without a mark around
them, and so are the field names that are identifiers.  Main statements: `bare_append_inj`, such
words are told apart by what they say, and `printedKey_append_inj`, the same for field names.
-/

namespace TypeSketch.Emission

open Name (Invented isNameChar)
open Text (Stops run_append_inj)

/-- A character of words and numbers. -/
def isBare (c : Char) : Bool :=
  isNameChar c || c = '.' || c = '-' || c = '+'

section Numbers

/-- A character of a numeral. -/
def isNumeralChar (c : Char) : Bool :=
  c.isDigit || c = '.' || c = '-' || c = '+' || c = 'e'

theorem isNumeralChar_of_isDigit {c : Char} (h : c.isDigit = true) : isNumeralChar c = true := by
  simp [isNumeralChar, h]

theorem isNumeralChar_of_mem_text {n : Json.Numeral} (hn : n.WellFormed) :
    ∀ c ∈ n.text, isNumeralChar c = true := by
  have hwhole : ∀ c ∈ n.whole, isNumeralChar c = true := by
    intro c hc
    rcases hn.whole with h | ⟨-, -, h⟩
    · rw [h] at hc
      rw [List.mem_singleton.mp hc]
      decide
    · exact isNumeralChar_of_isDigit (h c hc)
  have hfraction : ∀ c ∈ Json.fractionText n.fraction, isNumeralChar c = true := by
    intro c hc
    cases hf : n.fraction with
    | none =>
        rw [hf] at hc
        cases hc
    | some digits =>
        rw [hf] at hc
        rcases List.mem_cons.mp hc with rfl | hc
        · decide
        · exact isNumeralChar_of_isDigit ((hn.fraction digits hf).2 c hc)
  have hexponent : ∀ c ∈ Json.exponentText n.exponent, isNumeralChar c = true := by
    intro c hc
    cases he : n.exponent with
    | none =>
        rw [he] at hc
        cases hc
    | some e =>
        rw [he, Json.exponentText, Binary64.exponentText] at hc
        rcases List.mem_cons.mp hc with rfl | hc
        · decide
        · rcases List.mem_cons.mp hc with rfl | hc
          · split <;> decide
          · rcases List.mem_append.mp hc with hc | hc
            · exact isNumeralChar_of_isDigit (Text.isDigit_of_mem_zeros hc)
            · exact isNumeralChar_of_isDigit (Text.isDigit_of_mem_toDigits hc)
  intro c hc
  simp only [Json.Numeral.text, List.mem_append] at hc
  rcases hc with hc | hc | hc | hc
  · rw [Binary64.signText] at hc
    split at hc
    · rw [List.mem_singleton.mp hc]
      decide
    · cases hc
  · exact hwhole c hc
  · exact hfraction c hc
  · exact hexponent c hc

theorem exists_digit_of_wellFormed {n : Json.Numeral} (hn : n.WellFormed) :
    ∃ c ∈ n.text, c.isDigit = true := by
  obtain ⟨c, rest, hwhole, hc⟩ := hn.whole.exists_digit
  refine ⟨c, ?_, hc⟩
  simp [Json.Numeral.text, hwhole]

theorem isBare_of_isNumeralChar {c : Char} (h : isNumeralChar c = true) : isBare c = true := by
  simp only [isNumeralChar, isBare, Bool.or_eq_true] at h ⊢
  rcases h with (((h | h) | h) | h) | h
  · exact .inl (.inl (.inl (Name.isNameChar_of_isPart (Name.isPart_of_isDigit h))))
  · exact .inl (.inl (.inr h))
  · exact .inl (.inr h)
  · exact .inr h
  · rw [of_decide_eq_true h]
    decide

theorem isUpper_of_isNumeralChar {c : Char} (h : isNumeralChar c = true) : c.isUpper = false := by
  simp only [isNumeralChar, Bool.or_eq_true, decide_eq_true_eq] at h
  rcases h with (((h | rfl) | rfl) | rfl) | rfl
  · have hle : c.val ≤ '9'.val := by
      rw [Char.isDigit, Bool.and_eq_true] at h
      exact of_decide_eq_true h.2
    refine decide_eq_false fun hupper => ?_
    exact absurd (UInt32.le_trans hupper.1 hle) (by decide)
  all_goals decide

/-- What is known of the text of a number: it has a digit, or is one of three words. -/
structure NumberText (text : List Char) : Prop where
  bare : ∀ c ∈ text, isBare c = true
  plain : ∀ c ∈ text, c.isUpper = false
  digit : (∃ c ∈ text, c.isDigit = true) ∨
    text ∈ ["inf".toList, "-inf".toList, "nan".toList]

theorem numberText {l : Literal} (hl : l.kind = .number) : NumberText l.text := by
  rcases Json.writtenAs_or_word hl with ⟨n, hn, htext, -⟩ | ⟨x, rfl, hx⟩
  · rw [← htext]
    have hchars := isNumeralChar_of_mem_text hn
    exact {
      bare := fun c hc => isBare_of_isNumeralChar (hchars c hc)
      plain := fun c hc => isUpper_of_isNumeralChar (hchars c hc)
      digit := .inl (exists_digit_of_wellFormed hn) }
  · rcases hx with rfl | ⟨negative, rfl⟩
    · constructor <;> simp [Literal.text, Binary64.text, isBare, isNameChar, Name.isPart]
    · cases negative <;> constructor <;>
        simp [Literal.text, Binary64.text, Binary64.signText, isBare, isNameChar, Name.isPart]

end Numbers

section Bare

variable {o : Options} {σ : Key → Option String}

/-- Different structures have different names. -/
def Faithful (σ : Key → Option String) : Prop :=
  ∀ ⦃k l : Key⦄ ⦃name : String⦄, σ k = some name → σ l = some name → k = l

/-- The shapes that are written as a word of the language. -/
def plainWords : List (Shape × String) :=
  [(.null, "null"), (.primitive .string none, "string"), (.primitive .number none, "number"),
    (.primitive .boolean none, "boolean"), (.primitive .boolean (some (.bool true)), "true"),
    (.primitive .boolean (some (.bool false)), "false")]

/-- A shape that is written without a mark around it: as a word of the language, as a number, or as
an invented name. -/
inductive Bare (o : Options) (σ : Key → Option String) : Shape → Prop
  | word {s : Shape} {w : String} (h : (s, w) ∈ plainWords) : Bare o σ s
  | number {l : Literal} (hl : l.kind = .number) : Bare o σ (.primitive .number (some l))
  | name {fs : List (Field Shape)} {name : String} (hdeclared : isInline o fs = false)
      (hname : σ (Shape.object fs).identity = some name) (h : Invented name) :
      Bare o σ (.object fs)

/-- A primitive is written without a mark unless it is a string. -/
theorem bare_or_string {kind : Kind} {l : Option Literal} (hkind : ∀ m ∈ l, m.kind = kind) :
    Bare o σ (.primitive kind l) ∧ (∀ t, l ≠ some (.str t)) ∨
      ∃ t, kind = .string ∧ l = some (.str t) := by
  cases l with
  | none =>
      refine .inl ⟨.word (w := kind.name) ?_, by simp⟩
      cases kind <;> simp [plainWords, Kind.name]
  | some l =>
      obtain rfl : l.kind = kind := hkind l rfl
      cases l with
      | str t => exact .inr ⟨t, rfl, rfl⟩
      | bool b =>
          refine .inl ⟨.word (w := if b then "true" else "false") ?_, by simp⟩
          cases b <;> simp [plainWords, Literal.kind]
      | int n => exact .inl ⟨.number rfl, by simp⟩
      | float x => exact .inl ⟨.number rfl, by simp⟩

theorem render_of_mem_plainWords : ∀ p ∈ plainWords, render o σ p.1 = p.2.toList := by
  simp [plainWords, primitiveText, Kind.name, Literal.token]

theorem render_number {l : Literal} (hl : l.kind = .number) :
    render o σ (.primitive .number (some l)) = (l.token .number).text := by
  have hkind := (Literal.isToken_token hl).1
  rw [render_primitive]
  simp only [primitiveText]
  cases htoken : l.token .number with
  | bool b =>
      rw [htoken] at hkind
      cases hkind
  | _ => rfl

theorem render_name {fs : List (Field Shape)} {name : String} (hdeclared : isInline o fs = false)
    (hname : σ (Shape.object fs).identity = some name) :
    render o σ (.object fs) = name.toList := by
  rw [render_declared hdeclared, hname, Option.getD_some]

theorem Bare.isBare {s : Shape} (h : Bare o σ s) : ∀ c ∈ render o σ s, isBare c = true := by
  cases h with
  | word h =>
      have hwords : ∀ p ∈ plainWords, ∀ c ∈ p.2.toList, Emission.isBare c = true := by
        simp [plainWords, Emission.isBare, isNameChar, Name.isPart]
      rw [render_of_mem_plainWords _ h]
      exact hwords _ h
  | number hl =>
      rw [render_number hl]
      exact (numberText (Literal.isToken_token hl).1).bare
  | name hdeclared hname h =>
      rw [render_name hdeclared hname]
      intro c hc
      simp [Emission.isBare, h.word c hc]

theorem Bare.ne_nil {s : Shape} (h : Bare o σ s) : render o σ s ≠ [] := by
  cases h with
  | word h =>
      have hwords : ∀ p ∈ plainWords, p.2.toList ≠ [] := by decide
      rw [render_of_mem_plainWords _ h]
      exact hwords _ h
  | number hl =>
      rw [render_number hl]
      rcases (numberText (Literal.isToken_token hl).1).digit with ⟨c, hc, -⟩ | hmem
      · exact List.ne_nil_of_mem hc
      · intro hnil
        rw [hnil] at hmem
        exact absurd hmem (by decide)
  | name hdeclared hname h =>
      obtain ⟨c, hc, -⟩ := h.capital
      rw [render_name hdeclared hname]
      exact List.ne_nil_of_mem hc

theorem word_ne_number {s : Shape} {w : String} (h : (s, w) ∈ plainWords) {t : List Char}
    (ht : NumberText t) : w.toList ≠ t := by
  have hwords : ∀ p ∈ plainWords, (∀ c ∈ p.2.toList, c.isDigit = false) ∧
      p.2.toList ∉ ["inf".toList, "-inf".toList, "nan".toList] := by
    simp [plainWords]
  obtain ⟨hdigit, hspecial⟩ := hwords _ h
  rintro rfl
  rcases ht.digit with ⟨c, hc, hcdigit⟩ | hmem
  · exact Bool.noConfusion ((hdigit c hc).symm.trans hcdigit)
  · exact hspecial hmem

theorem name_ne {name : String} (h : Invented name) {t : List Char}
    (ht : ∀ c ∈ t, c.isUpper = false) : name.toList ≠ t := by
  rintro rfl
  obtain ⟨c, hc, hupper⟩ := h.capital
  exact Bool.noConfusion ((ht c hc).symm.trans hupper)

theorem plain_of_mem_plainWords :
    ∀ p ∈ plainWords, ∀ c ∈ p.2.toList, c.isUpper = false := by
  simp [plainWords]

/-- What is written without a mark says which shape it is of. -/
theorem Bare.identity_eq (hσ : Faithful σ)
    {s r : Shape} (hs : Bare o σ s) (hr : Bare o σ r) (h : render o σ s = render o σ r) :
    s.identity = r.identity := by
  cases hs with
  | word hs =>
      rw [render_of_mem_plainWords _ hs] at h
      cases hr with
      | word hr =>
          have hwords : ∀ p ∈ plainWords, ∀ q ∈ plainWords, p.2 = q.2 →
              p.1.identity = q.1.identity := by decide
          rw [render_of_mem_plainWords _ hr] at h
          exact hwords _ hs _ hr (String.toList_inj.mp h)
      | number hl =>
          rw [render_number hl] at h
          exact absurd h (word_ne_number hs (numberText (Literal.isToken_token hl).1))
      | name hdeclared hname hinvented =>
          rw [render_name hdeclared hname] at h
          exact absurd h.symm (name_ne hinvented (plain_of_mem_plainWords _ hs))
  | @number l hl =>
      have htext := numberText (Literal.isToken_token hl).1
      rw [render_number hl] at h
      cases hr with
      | word hr =>
          rw [render_of_mem_plainWords _ hr] at h
          exact absurd h.symm (word_ne_number hr htext)
      | @number m hm =>
          rw [render_number hm] at h
          have htoken := (Json.number_text_append_inj (Literal.isToken_token hl).1
            (Literal.isToken_token hm).1 (r := []) (s := []) (by rintro c ⟨⟩) (by rintro c ⟨⟩)
            (congrArg (· ++ []) h)).1
          rw [Shape.identity_primitive, Shape.identity_primitive, Option.map_some, Option.map_some,
            ← Literal.canonical_token, htoken, Literal.canonical_token]
      | name hdeclared hname hinvented =>
          rw [render_name hdeclared hname] at h
          exact absurd h.symm (name_ne hinvented htext.plain)
  | name hdeclared hname hinvented =>
      rw [render_name hdeclared hname] at h
      cases hr with
      | word hr =>
          rw [render_of_mem_plainWords _ hr] at h
          exact absurd h (name_ne hinvented (plain_of_mem_plainWords _ hr))
      | number hl =>
          rw [render_number hl] at h
          exact absurd h (name_ne hinvented (numberText (Literal.isToken_token hl).1).plain)
      | name hdeclared' hname' hinvented' =>
          rw [render_name hdeclared' hname', String.toList_inj] at h
          exact hσ hname (h ▸ hname')

/-- Words and numbers are told apart in front of what does not continue them. -/
theorem Bare.append_inj (hσ : Faithful σ)
    {s r : Shape} (hs : Bare o σ s) (hr : Bare o σ r) {x y : List Char} (hx : Stops Emission.isBare x)
    (hy : Stops Emission.isBare y) (h : render o σ s ++ x = render o σ r ++ y) :
    s.identity = r.identity ∧ x = y := by
  obtain ⟨htext, hrest⟩ := run_append_inj hs.isBare hr.isBare hx hy h
  exact ⟨hs.identity_eq hσ hr htext, hrest⟩

end Bare

section Keys

theorem quote_ne_backslash (style : QuoteStyle) : style.char ≠ '\\' := by
  cases style <;> decide

theorem quote_not_bare (style : QuoteStyle) : isBare style.char = false := by
  cases style <;> decide

/-- Field names are told apart, whether they are in quotes or not. -/
theorem printedKey_append_inj {style : QuoteStyle} {a b x y : List Char}
    (hx : Stops isNameChar x) (hy : Stops isNameChar y)
    (h : Name.printedKey style.char a ++ x = Name.printedKey style.char b ++ y) :
    a = b ∧ x = y := by
  -- an identifier does not start with a quote
  have hmixed : ∀ {a b x y : List Char}, Name.isIdentifier a = true →
      a ++ x ≠ Text.enclosed style.char b ++ y := by
    intro a b x y ha heq
    cases a with
    | nil => cases ha
    | cons c rest =>
        have hc := Name.isNameChar_of_isIdentifier ha c List.mem_cons_self
        have hquote := quote_not_bare style
        rw [← (List.cons.inj heq).1, isBare, hc] at hquote
        cases hquote
  rw [Name.printedKey, Name.printedKey] at h
  split at h <;> split at h
  · rename_i ha hb
    exact run_append_inj (Name.isNameChar_of_isIdentifier ha) (Name.isNameChar_of_isIdentifier hb)
      hx hy h
  · rename_i ha _
    exact absurd h (hmixed ha)
  · rename_i hb
    exact absurd h.symm (hmixed hb)
  · exact Text.enclosed_append_inj (quote_ne_backslash style) h

/-- A field name starts with a character of a word or with a quote. -/
theorem exists_printedKey_eq_cons (style : QuoteStyle) (a : List Char) :
    ∃ c rest, Name.printedKey style.char a = c :: rest ∧ (isNameChar c = true ∨ c = style.char) := by
  rw [Name.printedKey]
  split
  · rename_i ha
    cases a with
    | nil => cases ha
    | cons c rest =>
        exact ⟨c, rest, rfl, .inl (Name.isNameChar_of_isIdentifier ha c List.mem_cons_self)⟩
  · exact ⟨_, _, rfl, .inr rfl⟩

end Keys

end TypeSketch.Emission
