import TypeSketch.Json.Printer
import TypeSketch.Proofs.Entries
import TypeSketch.Proofs.Json.Layout

/-!
# Printed values

The tokens of a value, and printing as writing them one after the other.  Main statements:
`steps?_tokens`, the machine reads the tokens of a value as the value, and `parse_printed`, what is
printed is read back, in either spelling of the characters beyond ASCII.
-/

namespace TypeSketch.Json

open Text (hexText hexQuad? isHighSurrogate isLowSurrogate charOfCode joinSurrogates)

section Strings

/-- A way to write the characters of a string so that each is read back by itself. -/
def WritesChars (write : Char → List Char) : Prop :=
  ∀ c body chars, StringBody body chars → StringBody (write c ++ body) (c :: chars)

theorem toNat_not_surrogate (c : Char) :
    isHighSurrogate c.toNat = false ∧ isLowSurrogate c.toNat = false := by
  have hvalid : c.toNat < 0xD800 ∨ 0xDFFF < c.toNat ∧ c.toNat < 0x110000 := c.valid
  simp only [isHighSurrogate, isLowSurrogate, Bool.and_eq_false_iff, decide_eq_false_iff_not]
  omega

/-- A code below the surrogates or above them is the number of its character. -/
theorem charOfCode_toNat (c : Char) : charOfCode c.toNat = c := by
  obtain ⟨hhigh, hlow⟩ := toNat_not_surrogate c
  simp [charOfCode, hhigh, hlow, Char.ofNat_toNat]

theorem stringBody_hexText {c : Char} {body chars : List Char} (hc : c.toNat < 0x10000)
    (h : StringBody body chars) :
    StringBody ('\\' :: 'u' :: hexText 4 c.toNat ++ body) (c :: chars) := by
  obtain ⟨a, b, d, e, htext, hn⟩ := Text.exists_hexQuad hc
  have hcode := StringBody.code hn (fun hhigh => absurd hhigh (by simp [toNat_not_surrogate c])) h
  rw [charOfCode_toNat] at hcode
  rw [htext]
  exact hcode

theorem writesChars_jsonChar : WritesChars Text.jsonChar := by
  intro c body chars h
  unfold Text.jsonChar
  split
  next hc => exact .escape (by rcases hc with rfl | rfl <;> rfl) h
  next hc =>
    split
    next hc => exact hc ▸ .escape rfl h
    split
    next hc => exact hc ▸ .escape rfl h
    split
    next hc => exact hc ▸ .escape rfl h
    split
    next hc => exact hc ▸ .escape rfl h
    split
    next hc => exact hc ▸ .escape rfl h
    split
    next hcontrol => exact stringBody_hexText (by omega) h
    next hcontrol =>
      obtain ⟨hquote, hescape⟩ := not_or.mp hc
      exact .plain hquote hescape hcontrol h

/-- A character of a string in ASCII: by its code if it is beyond. -/
def asciiChar (c : Char) : List Char :=
  let n := c.toNat
  if n < 0x7F then Text.jsonChar c
  else if n < 0x10000 then '\\' :: 'u' :: hexText 4 n
  else
    '\\' :: 'u' :: (hexText 4 (0xD800 + (n - 0x10000) / 0x400) ++
      '\\' :: 'u' :: hexText 4 (0xDC00 + (n - 0x10000) % 0x400))

theorem writesChars_asciiChar : WritesChars asciiChar := by
  intro c body chars h
  have hmax : c.toNat < 0xD800 ∨ 0xDFFF < c.toNat ∧ c.toNat < 0x110000 := c.valid
  unfold asciiChar
  dsimp only
  split
  next => exact writesChars_jsonChar c body chars h
  next =>
    split
    next hlow => exact stringBody_hexText hlow h
    next hwide =>
      obtain ⟨high, hhigh⟩ : ∃ high, high = 0xD800 + (c.toNat - 0x10000) / 0x400 := ⟨_, rfl⟩
      obtain ⟨low, hlow⟩ : ∃ low, low = 0xDC00 + (c.toNat - 0x10000) % 0x400 := ⟨_, rfl⟩
      rw [← hhigh, ← hlow]
      obtain ⟨a, b, d, e, htext, hn⟩ := Text.exists_hexQuad (show high < 0x10000 by omega)
      obtain ⟨a', b', d', e', htext', hn'⟩ := Text.exists_hexQuad (show low < 0x10000 by omega)
      have hhalf : isHighSurrogate high = true := by
        simp only [isHighSurrogate, Bool.and_eq_true, decide_eq_true_eq]
        omega
      have hhalf' : isLowSurrogate low = true := by
        simp only [isLowSurrogate, Bool.and_eq_true, decide_eq_true_eq]
        omega
      have hjoin : joinSurrogates high low = c := by
        rw [joinSurrogates,
          show 0x10000 + (high - 0xD800) * 0x400 + (low - 0xDC00) = c.toNat by omega,
          Char.ofNat_toNat]
      have hpair := StringBody.pair hn hhalf hn' hhalf' h
      rw [hjoin] at hpair
      rw [htext, htext']
      exact hpair

/-- The characters of a string as they are printed: all in ASCII, or as they are where they can. -/
def writeChar (ascii : Bool) : Char → List Char :=
  if ascii then asciiChar else Text.jsonChar

theorem writesChars_writeChar (ascii : Bool) : WritesChars (writeChar ascii) := by
  cases ascii
  · exact writesChars_jsonChar
  · exact writesChars_asciiChar

theorem stringBody_flatMap {write : Char → List Char} (hwrite : WritesChars write)
    (chars : List Char) : StringBody (chars.flatMap write) chars := by
  induction chars with
  | nil => exact .nil
  | cons c chars ih => exact hwrite c _ chars ih

/-- The text in quotes is a text of the string. -/
theorem tokenText_jsonString (chars : List Char) :
    TokenText (.scalar (.str (String.ofList chars))) (Text.jsonString chars) :=
  .string (stringBody_flatMap writesChars_jsonChar chars)

end Strings

section Tokens

mutual

/-- The tokens of a value. -/
def tokens : Json → List Token
  | .null => [.null]
  | .scalar l => [.scalar l]
  | .array items => .openArray :: (itemTokens items ++ [.closeArray])
  | .object fields => .openObject :: (fieldTokens fields ++ [.closeObject])

def itemTokens : List Json → List Token
  | [] => []
  | [v] => tokens v
  | v :: rest => tokens v ++ .comma :: itemTokens rest

def fieldTokens : List (String × Json) → List Token
  | [] => []
  | [(name, v)] => .scalar (.str name) :: .colon :: tokens v
  | (name, v) :: rest => .scalar (.str name) :: .colon :: (tokens v ++ .comma :: fieldTokens rest)

end

/-- No object of the value has a name twice. -/
inductive HasDistinctNames : Json → Prop
  | null : HasDistinctNames .null
  | scalar (l : Literal) : HasDistinctNames (.scalar l)
  | array {items : List Json} (h : ∀ v ∈ items, HasDistinctNames v) :
      HasDistinctNames (.array items)
  | object {fields : List (String × Json)} (hnames : (fields.map (·.1)).Nodup)
      (h : ∀ field ∈ fields, HasDistinctNames field.2) : HasDistinctNames (.object fields)

namespace State

/-- The machine reads these tokens as the value, whatever is open and whatever follows. -/
def Reads (v : Json) : Prop :=
  ∀ opened rest, (State.value opened).steps? (tokens v ++ rest) = (put v opened).steps? rest

theorem exists_tokens_eq_cons (v : Json) : ∃ t rest, tokens v = t :: rest ∧ t.closes = false := by
  cases v <;> exact ⟨_, _, rfl, rfl⟩

/-- In front of the first element of an array a value is read as anywhere. -/
theorem steps?_firstElement (v : Json) (opened : List Frame) (rest : List Token) :
    (State.firstElement opened).steps? (tokens v ++ rest) =
      (State.value (.array [] :: opened)).steps? (tokens v ++ rest) := by
  obtain ⟨t, ts, ht, hcloses⟩ := exists_tokens_eq_cons v
  rw [ht, List.cons_append]
  cases t <;> first | rfl | cases hcloses

theorem steps?_items {items : List Json} (h : ∀ v ∈ items, Reads v) (hne : items ≠ [])
    (done : List Json) (opened : List Frame) (rest : List Token) :
    (State.value (.array done :: opened)).steps? (itemTokens items ++ .closeArray :: rest) =
      (put (.array (done.reverse ++ items)) opened).steps? rest := by
  induction items generalizing done with
  | nil => exact absurd rfl hne
  | cons v items ih =>
      have hv := h v List.mem_cons_self
      cases items with
      | nil =>
          rw [itemTokens, hv]
          simp [steps?, put, step?, closeArray]
      | cons w items =>
          have hrest := ih (fun u hu => h u (List.mem_cons_of_mem v hu)) (List.cons_ne_nil w items)
            (v :: done)
          rw [itemTokens, List.append_assoc, hv, List.cons_append]
          · simpa [steps?, put, step?] using hrest
          · exact List.cons_ne_nil w items

theorem steps?_fields {fields : List (String × Json)} (h : ∀ field ∈ fields, Reads field.2)
    (hne : fields ≠ []) (done : List (String × Json)) (opened : List Frame) (rest : List Token) :
    (State.nextName done opened).steps? (fieldTokens fields ++ .closeObject :: rest) =
      (put (.object (settle (done.reverse ++ fields))) opened).steps? rest := by
  induction fields generalizing done with
  | nil => exact absurd rfl hne
  | cons field fields ih =>
      obtain ⟨name, v⟩ := field
      have hv := h (name, v) List.mem_cons_self
      cases fields with
      | nil =>
          have hvalue := hv (.object done name :: opened) (.closeObject :: rest)
          simp [fieldTokens, steps?, step?, hvalue, put, closeObject]
      | cons field fields =>
          have hrest := ih (fun f hf => h f (List.mem_cons_of_mem _ hf)) (List.cons_ne_nil _ fields)
            ((name, v) :: done)
          have hvalue := hv (.object done name :: opened)
            (.comma :: (fieldTokens (field :: fields) ++ .closeObject :: rest))
          rw [fieldTokens]
          · simpa [steps?, step?, hvalue, put] using hrest
          · exact List.cons_ne_nil field fields

/-- In front of the first name of an object a name is read as anywhere. -/
theorem steps?_firstName {fields : List (String × Json)} (hne : fields ≠ []) (opened : List Frame)
    (rest : List Token) : (State.firstName opened).steps? (fieldTokens fields ++ rest) =
      (State.nextName [] opened).steps? (fieldTokens fields ++ rest) := by
  match fields, hne with
  | [(name, v)], _ => rfl
  | (name, v) :: _ :: _, _ => rfl

/-- The tokens of a value are read as the value. -/
theorem reads {v : Json} (h : v.HasDistinctNames) : Reads v := by
  induction h with
  | null => exact fun opened rest => rfl
  | scalar l => exact fun opened rest => rfl
  | @array items h ih =>
      intro opened rest
      simp only [tokens, List.cons_append, List.append_assoc, List.nil_append, steps?, step?,
        begin?, Option.bind_some]
      cases items with
      | nil => rfl
      | cons v items =>
          have hitems := steps?_items ih (List.cons_ne_nil v items) [] opened rest
          rw [List.reverse_nil, List.nil_append] at hitems
          rw [← hitems]
          cases items with
          | nil => exact steps?_firstElement v opened _
          | cons w items =>
              rw [itemTokens, List.append_assoc]
              · exact steps?_firstElement v opened _
              · exact List.cons_ne_nil w items
  | @object fields hnames h ih =>
      intro opened rest
      simp only [tokens, List.cons_append, List.append_assoc, List.nil_append, steps?, step?,
        begin?, Option.bind_some]
      cases fields with
      | nil => rfl
      | cons field fields =>
          rw [steps?_firstName (List.cons_ne_nil field fields),
            steps?_fields ih (List.cons_ne_nil field fields), List.reverse_nil, List.nil_append,
            settle_eq_self hnames]

theorem steps?_tokens {v : Json} (h : v.HasDistinctNames) :
    (State.value []).steps? (tokens v) = some (.finished v) := by
  have hreads := reads h [] []
  rwa [List.append_nil] at hreads

end State

end Tokens

section Printing

variable {ascii : Bool} {toks : List Token}

/-- The text of a token. -/
def Token.text (ascii : Bool) : Token → List Char
  | .openArray => ['[']
  | .closeArray => [']']
  | .openObject => ['\x7b']
  | .closeObject => ['\x7d']
  | .comma => [',']
  | .colon => [':']
  | .null => ['n', 'u', 'l', 'l']
  | .scalar (.str s) => '"' :: (s.toList.flatMap (writeChar ascii) ++ ['"'])
  | .scalar l => l.json

/-- The white space that is printed behind a token. -/
def Token.gap : Token → List Char
  | .comma | .colon => [' ']
  | _ => []

/-- The tokens one after the other. -/
def printTokens (ascii : Bool) (toks : List Token) : List Char :=
  toks.flatMap fun t => t.text ascii ++ t.gap

/-- A value on one line, with strings in ASCII if so wished. -/
def printed (ascii : Bool) (v : Json) : List Char :=
  printTokens ascii (tokens v)

theorem tokenText_of_writtenAs {l : Literal} {n : Numeral} (h : WrittenAs l n) :
    TokenText (.scalar l) l.text := by
  obtain ⟨hn, htext, rfl⟩ := h
  exact .number (htext ▸ numeralText_text hn)

theorem tokenText_float (x : Binary64) :
    TokenText (.scalar (.float x)) (Literal.float x).json := by
  cases x with
  | nan => exact .word (by decide)
  | infinite negative => cases negative <;> exact .word (by decide)
  | finite negative units hfits =>
      rcases exists_numeral_float with ⟨n, hn⟩ | hword | ⟨_, hword⟩
      · exact tokenText_of_writtenAs hn
      · cases hword
      · cases hword

/-- What is printed for a token is a text of that token. -/
theorem tokenText_text (ascii : Bool) (t : Token) : TokenText t (t.text ascii) := by
  cases t with
  | null => exact .word (by simp [plainWords, Token.text])
  | scalar l =>
      cases l with
      | bool b => cases b <;> exact .word (by simp [plainWords, Token.text, Literal.json])
      | int i =>
          obtain ⟨n, hn⟩ := exists_numeral_int i
          exact tokenText_of_writtenAs hn
      | float x => exact tokenText_float x
      | str s =>
          have h := TokenText.string (stringBody_flatMap (writesChars_writeChar ascii) s.toList)
          rwa [String.ofList_toList] at h
  | _ => exact .mark rfl

theorem forall₂_text (ascii : Bool) (toks : List Token) :
    List.Forall₂ TokenText toks (toks.map (Token.text ascii)) := by
  rw [List.forall₂_map_right_iff, List.forall₂_same]
  exact fun t _ => tokenText_text ascii t

theorem isSpaces_gap (t : Token) : IsSpaces t.gap := by
  cases t <;> simp [Token.gap, IsSpaces, isSpace]

/-- What is printed are the texts of the tokens with white space between them. -/
theorem exists_spaced_printTokens (ascii : Bool) (hne : toks ≠ []) :
    ∃ b g, Spaced IsSpaces (toks.map (Token.text ascii)) b ∧ IsSpaces g ∧
      printTokens ascii toks = b ++ g := by
  induction toks with
  | nil => exact absurd rfl hne
  | cons t toks ih =>
      cases toks with
      | nil => exact ⟨t.text ascii, t.gap, .last _, isSpaces_gap t, by simp [printTokens]⟩
      | cons t' toks =>
          obtain ⟨b, g, hb, hg, htext⟩ := ih (List.cons_ne_nil t' toks)
          refine ⟨t.text ascii ++ (t.gap ++ b), g, .next (isSpaces_gap t) hb, hg, ?_⟩
          rw [printTokens, List.flatMap_cons, ← printTokens, htext]
          simp

/-- A printed value is read back. -/
theorem parse_printed {v : Json} (h : v.HasDistinctNames) (ascii : Bool) :
    parse (printed ascii v) = .ok v := by
  obtain ⟨t, rest, htokens, -⟩ := State.exists_tokens_eq_cons v
  obtain ⟨b, g, hb, hg, htext⟩ := exists_spaced_printTokens ascii
    (show tokens v ≠ [] from htokens ▸ List.cons_ne_nil t rest)
  exact parse_of_surrounded (forall₂_text ascii _) (State.steps?_tokens h)
    ⟨[], b, g, isSpaces_nil, hb, hg, htext⟩

mutual

/-- Printing without the restriction to ASCII is rendering. -/
theorem printed_eq_render : ∀ v : Json, printed false v = render v
  | .null => rfl
  | .scalar l => by
      cases l <;> simp [printed, printTokens, tokens, Token.text, Token.gap, render, writeChar,
        Literal.json, Text.jsonString]
  | .array items => by
      rw [render, ← printTokens_items items]
      simp [printed, tokens, printTokens, Token.text, Token.gap]
  | .object fields => by
      rw [render, ← printTokens_fields fields]
      simp [printed, tokens, printTokens, Token.text, Token.gap]

theorem printTokens_items : ∀ items : List Json,
    printTokens false (itemTokens items) = renderItems items
  | [] => rfl
  | [v] => printed_eq_render v
  | v :: w :: items => by
      rw [renderItems, ← printed_eq_render v, ← printTokens_items (w :: items), itemTokens]
      · simp [printed, printTokens, Token.text, Token.gap]
      · exact List.cons_ne_nil w items
      · exact List.cons_ne_nil w items

theorem printTokens_fields : ∀ fields : List (String × Json),
    printTokens false (fieldTokens fields) = renderFields fields
  | [] => rfl
  | [(name, v)] => by
      rw [renderFields, ← printed_eq_render v]
      simp [fieldTokens, printed, printTokens, Token.text, Token.gap, Text.jsonString, writeChar]
  | (name, v) :: field :: fields => by
      rw [renderFields, ← printed_eq_render v, ← printTokens_fields (field :: fields), fieldTokens]
      · simp [printed, printTokens, Token.text, Token.gap, Text.jsonString, writeChar]
      · exact List.cons_ne_nil field fields
      · exact List.cons_ne_nil field fields

end

/-- A rendered value is read back. -/
theorem parse_render {v : Json} (h : v.HasDistinctNames) : parse (render v) = .ok v := by
  rw [← printed_eq_render]
  exact parse_printed h false

end Printing

end TypeSketch.Json
