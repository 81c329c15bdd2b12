import TypeSketch.Json.Scan
import TypeSketch.Proofs.Json.Number

/-!
# Texts of tokens

`TokenText t w` says that `w` is a way to write the token `t`.  Main statements: `exists_tokenText`,
what is read as a token is a text of that token, and `TokenText.read`, such a text is read as the
token whatever follows it, unless it is a number and what follows continues the number.
-/

namespace TypeSketch.Json

open Text (hexQuad? isHighSurrogate isLowSurrogate charOfCode joinSurrogates)

section Numerals

theorem exists_of_scanWhole {s whole rest : List Char} (h : scanWhole s = some (whole, rest)) :
    IsWhole whole ∧ s = whole ++ rest := by
  cases s with
  | nil => cases h
  | cons c t =>
      simp only [scanWhole] at h
      split at h
      next hc =>
        cases h
        exact ⟨Or.inl rfl, by rw [hc]; rfl⟩
      next hc =>
        split at h
        next hdigit =>
          simp only [Text.spanDigits, Option.some.injEq, Prod.mk.injEq] at h
          obtain ⟨rfl, rfl⟩ := h
          refine ⟨Or.inr ⟨?_, ?_, ?_⟩, List.takeWhile_append_dropWhile.symm⟩
          · simp [hdigit]
          · simpa [hdigit] using hc
          · exact List.all_eq_true.mp List.all_takeWhile
        next => cases h

theorem exists_of_scanFraction (s : List Char) :
    (∀ ds ∈ (scanFraction s).map (·.1), ds ≠ [] ∧ ∀ c ∈ ds, c.isDigit = true) ∧
      s = fractionText ((scanFraction s).map (·.1)) ++ ((scanFraction s).map (·.2)).getD s := by
  unfold scanFraction
  split
  next rest =>
    dsimp only
    split
    next => simp [fractionText]
    next hne =>
      refine ⟨?_, ?_⟩
      · rintro ds ⟨⟩
        exact ⟨hne, List.all_eq_true.mp List.all_takeWhile⟩
      · simp [fractionText, Text.spanDigits]
  next => simp [fractionText]

theorem exists_sign (s : List Char) : ∃ sign, (sign = [] ∨ sign = ['+'] ∨ sign = ['-']) ∧
    scanSign s = (decide (sign = ['-']), s.drop sign.length) ∧ s = sign ++ s.drop sign.length := by
  unfold scanSign
  split
  · exact ⟨['-'], by simp⟩
  · exact ⟨['+'], by simp⟩
  · exact ⟨[], by simp⟩

theorem exists_of_scanExponent (s : List Char) :
    ∃ text, ExponentText ((scanExponent s).map (·.1)) text ∧
      s = text ++ ((scanExponent s).map (·.2)).getD s := by
  unfold scanExponent
  split
  next c rest =>
    split
    next hmark =>
      obtain ⟨sign, hsign, hscan, hrest⟩ := exists_sign rest
      rw [hscan]
      dsimp only
      split
      next => exact ⟨[], .none, rfl⟩
      next hne =>
        refine ⟨c :: (sign ++ (Text.spanDigits (rest.drop sign.length)).1), ?_, ?_⟩
        · have h := ExponentText.some hmark hsign hne (List.all_eq_true.mp List.all_takeWhile)
          simpa using h
        · simp [Text.spanDigits, ← hrest]
    next => exact ⟨[], .none, rfl⟩
  next => exact ⟨[], .none, rfl⟩

/-- What is read as a numeral is a text of that numeral. -/
theorem exists_numeralText {s rest : List Char} {n : Numeral}
    (h : scanNumeral s = some (n, rest)) : ∃ text, NumeralText n text ∧ s = text ++ rest := by
  simp only [scanNumeral] at h
  split at h
  next => cases h
  next whole after hwhole =>
    simp only [Option.some.injEq, Prod.mk.injEq] at h
    obtain ⟨rfl, rfl⟩ := h
    obtain ⟨hw, hs⟩ := exists_of_scanWhole hwhole
    obtain ⟨hf, hafter⟩ := exists_of_scanFraction after
    obtain ⟨exponent, he, hrest⟩ :=
      exists_of_scanExponent (((scanFraction after).map (·.2)).getD after)
    refine ⟨_, ⟨⟨hw, hf⟩, exponent, he, rfl⟩, ?_⟩
    simp only [Numeral.textWith, List.append_assoc]
    rw [← hrest, ← hafter, ← hs]
    cases s with
    | nil => cases hwhole
    | cons c t =>
        by_cases hc : c = '-'
        · simp [hc, Binary64.signText]
        · simp [hc, Binary64.signText]

end Numerals

section Strings

/-- The text starts with an escape for the second half of a surrogate pair. -/
def StartsLow (s : List Char) : Prop :=
  ∃ a b c d rest low, s = '\\' :: 'u' :: a :: b :: c :: d :: rest ∧
    hexQuad? a b c d = some low ∧ isLowSurrogate low = true

/-- What may stand between the quotes of a string, and the characters that it stands for.  The
escape of a first half takes that of a second half with it. -/
inductive StringBody : List Char → List Char → Prop
  | nil : StringBody [] []
  | plain {c : Char} {s chars : List Char} (hquote : c ≠ '"') (hescape : c ≠ '\\')
      (hcontrol : ¬c.toNat < 0x20) (h : StringBody s chars) : StringBody (c :: s) (c :: chars)
  | escape {e c : Char} {s chars : List Char} (he : escaped? e = some c)
      (h : StringBody s chars) : StringBody ('\\' :: e :: s) (c :: chars)
  | code {a b c d : Char} {n : Nat} {s chars : List Char} (hn : hexQuad? a b c d = some n)
      (hlone : isHighSurrogate n = true → ¬StartsLow s) (h : StringBody s chars) :
      StringBody ('\\' :: 'u' :: a :: b :: c :: d :: s) (charOfCode n :: chars)
  | pair {a b c d a' b' c' d' : Char} {high low : Nat} {s chars : List Char}
      (hn : hexQuad? a b c d = some high) (hhigh : isHighSurrogate high = true)
      (hn' : hexQuad? a' b' c' d' = some low) (hlow : isLowSurrogate low = true)
      (h : StringBody s chars) :
      StringBody ('\\' :: 'u' :: a :: b :: c :: d :: '\\' :: 'u' :: a' :: b' :: c' :: d' :: s)
        (joinSurrogates high low :: chars)

theorem isLowSurrogate_of_high {n : Nat} (h : isHighSurrogate n = true) :
    isLowSurrogate n = false := by
  simp [isHighSurrogate, isLowSurrogate] at h ⊢
  omega

theorem ne_u_of_escaped? {e c : Char} (he : escaped? e = some c) : e ≠ 'u' := by
  rintro rfl
  cases he

theorem codeUnit?_cons {a b c d : Char} {s : List Char} (hs : s ≠ []) :
    codeUnit? (a :: b :: c :: d :: s) = hexQuad? a b c d := by
  obtain ⟨x, t, rfl⟩ := List.exists_cons_of_ne_nil hs
  rfl

theorem exists_of_codeUnit? {s : List Char} {n : Nat} (h : codeUnit? s = some n) :
    ∃ a b c d rest, s = a :: b :: c :: d :: rest ∧ rest ≠ [] ∧ hexQuad? a b c d = some n := by
  unfold codeUnit? at h
  split at h
  next a b c d x t => exact ⟨a, b, c, d, x :: t, rfl, List.cons_ne_nil x t, h⟩
  next => cases h

theorem codeEscape_of_not_low {a b c d : Char} {n : Nat} {s chars rest : List Char}
    (hn : hexQuad? a b c d = some n) (hlone : isHighSurrogate n = true → ¬StartsLow s)
    (h : StringBody s chars) :
    codeEscape (a :: b :: c :: d :: (s ++ '"' :: rest)) = .ok (charOfCode n, 5) := by
  rw [codeEscape, codeUnit?_cons (by simp), hn]
  by_cases hhigh : isHighSurrogate n = true
  · simp only [hhigh, if_true, List.drop_succ_cons, List.drop_zero]
    cases h with
    | nil => simp
    | plain hquote hescape => simp [hescape]
    | escape he => simp [ne_u_of_escaped? he]
    | @code a' b' c' d' m s chars hm =>
        have hlow : isLowSurrogate m = false := by
          rw [Bool.eq_false_iff]
          exact fun hl => hlone hhigh ⟨a', b', c', d', s, m, rfl, hm, hl⟩
        simp [codeUnit?_cons, hm, hlow]
    | @pair a' b' c' d' _ _ _ _ m low s chars hm hmhigh =>
        simp [codeUnit?_cons, hm, isLowSurrogate_of_high hmhigh]
  · simp [hhigh]

theorem codeEscape_pair {a b c d a' b' c' d' : Char} {high low : Nat} {s : List Char}
    (hn : hexQuad? a b c d = some high) (hhigh : isHighSurrogate high = true)
    (hn' : hexQuad? a' b' c' d' = some low) (hlow : isLowSurrogate low = true) (hs : s ≠ []) :
    codeEscape (a :: b :: c :: d :: '\\' :: 'u' :: a' :: b' :: c' :: d' :: s) =
      .ok (joinSurrogates high low, 11) := by
  have hlength : 0 < s.length := List.length_pos_iff.mpr hs
  have hshort : ¬s.length + 1 + 1 + 1 + 1 < 5 := by omega
  simp [codeEscape, codeUnit?_cons, hn, hhigh, hn', hs, hlow, hshort]

/-- The body of a string is read up to its closing quote. -/
theorem StringBody.scan {body chars : List Char} (h : StringBody body chars)
    (opening rest : List Char) : scanString opening (body ++ '"' :: rest) = .ok (chars, rest) := by
  induction h with
  | nil => simp [scanString]
  | plain hquote hescape hcontrol h ih =>
      rw [List.cons_append, scanString, if_neg hquote, if_neg hescape, if_neg hcontrol, ih]
      rfl
  | escape he h ih =>
      rw [List.cons_append, List.cons_append, scanString, Json.escape,
        if_neg (ne_u_of_escaped? he), he]
      simp [ih, Except.map]
  | code hn hlone h ih =>
      rw [List.cons_append, List.cons_append, scanString, Json.escape, if_pos rfl]
      simp [codeEscape_of_not_low hn hlone h, ih, Except.map]
  | pair hn hhigh hn' hlow h ih =>
      rw [List.cons_append, List.cons_append, scanString, Json.escape, if_pos rfl]
      simp [codeEscape_pair hn hhigh hn' hlow, ih, Except.map]

/-- What an escape by code is read as: a pair of halves, or else the code alone. -/
theorem codeEscape_cases {s : List Char} {e : Char} {n : Nat} (h : codeEscape s = .ok (e, n)) :
    ∃ a b c d t code, s = a :: b :: c :: d :: t ∧ hexQuad? a b c d = some code ∧
      ((n = 5 ∧ e = charOfCode code ∧ (isHighSurrogate code = true → ∀ u low,
          t = '\\' :: 'u' :: u → 5 ≤ u.length → codeUnit? u = some low →
          isLowSurrogate low = false)) ∨
        (n = 11 ∧ isHighSurrogate code = true ∧ ∃ u low, t = '\\' :: 'u' :: u ∧
          codeUnit? u = some low ∧ isLowSurrogate low = true ∧ e = joinSurrogates code low)) := by
  rw [codeEscape] at h
  split at h
  next => cases h
  next code hcode =>
    obtain ⟨a, b, c, d, t, rfl, -, hn⟩ := exists_of_codeUnit? hcode
    refine ⟨a, b, c, d, t, code, rfl, hn, ?_⟩
    simp only [List.drop_succ_cons, List.drop_zero] at h
    by_cases hhigh : isHighSurrogate code = true
    · rw [if_pos hhigh] at h
      split at h
      next u =>
        by_cases hlength : u.length < 5
        · rw [if_pos hlength] at h
          cases h
          refine .inl ⟨rfl, rfl, fun _ v low hv hlong => ?_⟩
          cases hv
          omega
        · rw [if_neg hlength] at h
          split at h
          next => cases h
          next low hlow =>
            split at h
            next hl =>
              obtain ⟨he, hn⟩ := Prod.mk.inj (Except.ok.inj h)
              exact .inr ⟨hn.symm, hhigh, u, low, rfl, hlow, hl, he.symm⟩
            next hl =>
              cases h
              refine .inl ⟨rfl, rfl, fun _ v m hv _ hm => ?_⟩
              cases hv
              rw [hlow] at hm
              cases hm
              exact Bool.eq_false_iff.mpr hl
      next hother =>
        cases h
        exact .inl ⟨rfl, rfl, fun _ u low hu => absurd hu (hother u)⟩
    · rw [if_neg hhigh] at h
      cases h
      exact .inl ⟨rfl, rfl, fun hh => absurd hh hhigh⟩

theorem exists_body_of_codeEscape {s body chars rest : List Char} {e : Char} {n : Nat}
    (hescape : codeEscape s = .ok (e, n)) (hbody : StringBody body chars)
    (hs : ('u' :: s).drop n = body ++ '"' :: rest) :
    ∃ longer, StringBody longer (e :: chars) ∧ '\\' :: 'u' :: s = longer ++ '"' :: rest := by
  obtain ⟨a, b, c, d, t, code, rfl, hn, hcases⟩ := codeEscape_cases hescape
  rcases hcases with ⟨rfl, rfl, hlow⟩ | ⟨rfl, hhigh, u, low, rfl, hu, hlow, he⟩
  · obtain rfl : t = body ++ '"' :: rest := by simpa using hs
    refine ⟨'\\' :: 'u' :: a :: b :: c :: d :: body, .code hn ?_ hbody, rfl⟩
    -- a second half behind the first would have been read with it
    rintro hhigh ⟨a', b', c', d', r, low, rfl, hm, hl⟩
    have hfalse := hlow hhigh (a' :: b' :: c' :: d' :: (r ++ '"' :: rest)) low rfl
      (by simp; omega) ((codeUnit?_cons (by simp)).trans hm)
    rw [hl] at hfalse
    cases hfalse
  · obtain ⟨a', b', c', d', r, rfl, -, hm⟩ := exists_of_codeUnit? hu
    obtain rfl : r = body ++ '"' :: rest := by simpa using hs
    rw [he]
    exact ⟨_, .pair hn hhigh hm hlow hbody, rfl⟩

/-- An escape in front of the rest of a string is part of the string. -/
theorem exists_body_of_escape {opening s body chars rest : List Char} {e : Char} {n : Nat}
    (hescape : escape opening s = .ok (e, n)) (hbody : StringBody body chars)
    (hs : s.drop n = body ++ '"' :: rest) :
    ∃ longer, StringBody longer (e :: chars) ∧ '\\' :: s = longer ++ '"' :: rest := by
  cases s with
  | nil => cases hescape
  | cons c t =>
      rw [escape] at hescape
      by_cases hu : c = 'u'
      · rw [if_pos hu] at hescape
        exact hu ▸ exists_body_of_codeEscape hescape hbody (hu ▸ hs)
      · rw [if_neg hu] at hescape
        split at hescape
        next he =>
          cases hescape
          exact ⟨'\\' :: c :: body, .escape he hbody, by simpa using hs⟩
        next => cases hescape

theorem exists_stringBody {opening s chars rest : List Char}
    (h : scanString opening s = .ok (chars, rest)) :
    ∃ body, StringBody body chars ∧ s = body ++ '"' :: rest := by
  fun_induction scanString opening s generalizing chars rest with
  | case1 => cases h
  | case2 =>
      cases h
      exact ⟨[], .nil, rfl⟩
  | case3 => cases h
  | case4 s e n hescape _ ih =>
      obtain ⟨r, hr, h⟩ := exists_of_map_eq_ok h
      cases h
      obtain ⟨body, hbody, hs⟩ := ih hr
      exact exists_body_of_escape hescape hbody hs
  | case5 => cases h
  | case6 c s hquote hescape hcontrol ih =>
      obtain ⟨r, hr, h⟩ := exists_of_map_eq_ok h
      cases h
      obtain ⟨body, hbody, hs⟩ := ih hr
      exact ⟨c :: body, .plain hquote hescape hcontrol hbody, by rw [hs, List.cons_append]⟩

end Strings

section Tokens

/-- The texts of a token. -/
inductive TokenText : Token → List Char → Prop
  | mark {c : Char} {t : Token} (h : mark? c = some t) : TokenText t [c]
  | word {w : List Char} {t : Token} (h : (w, t) ∈ plainWords ++ numberWords) : TokenText t w
  | number {n : Numeral} {w : List Char} (h : NumeralText n w) : TokenText (.scalar n.literal) w
  | string {body chars : List Char} (h : StringBody body chars) :
      TokenText (.scalar (.str (String.ofList chars))) ('"' :: (body ++ ['"']))

/-- Numbers are the tokens that go on as long as they can. -/
def Token.isNumber : Token → Bool
  | .scalar l => l.kind = .number
  | _ => false

def marks : List Char := ['[', ']', '{', '}', ',', ':']

def spaces : List Char := [' ', '\t', '\n', '\r']

def digits : List Char := ['0', '1', '2', '3', '4', '5', '6', '7', '8', '9']

/-- The characters that a token may start with. -/
def firsts : List Char := marks ++ digits ++ ['"', '-', 'n', 't', 'f', 'N', 'I']

/-- The characters that a token may end with. -/
def lasts : List Char := marks ++ digits ++ ['"', 'l', 'e', 'N', 'y']

theorem mem_digits_of_isDigit {c : Char} (h : c.isDigit = true) : c ∈ digits := by
  have hall : ∀ n < 128, (Char.ofNat n).isDigit = true → Char.ofNat n ∈ digits := by decide
  have hlt : c.toNat < 128 := by
    simp only [Char.isDigit, Bool.and_eq_true, decide_eq_true_eq] at h
    have hle : c.toNat ≤ 57 := h.2
    omega
  have hc := hall c.toNat hlt
  rw [Char.ofNat_toNat] at hc
  exact hc h

theorem mem_spaces_of_isSpace {c : Char} (h : isSpace c = true) : c ∈ spaces := by
  simp only [isSpace, Bool.or_eq_true, decide_eq_true_eq] at h
  rcases h with ((rfl | rfl) | rfl) | rfl <;> decide

theorem mark?_eq_none {c : Char} (h : c ∉ marks) : mark? c = none := by
  simp only [marks, List.mem_cons, List.not_mem_nil, or_false, not_or] at h
  simp [mark?, h]

theorem mem_marks_of_mark? {c : Char} {t : Token} (h : mark? c = some t) : c ∈ marks := by
  apply Classical.byContradiction
  intro hc
  rw [mark?_eq_none hc] at h
  cases h

theorem mark?_injective {c d : Char} {t : Token} (hc : mark? c = some t) (hd : mark? d = some t) :
    c = d := by
  have hall : ∀ c ∈ marks, ∀ d ∈ marks, mark? c = mark? d → c = d := by decide
  exact hall c (mem_marks_of_mark? hc) d (mem_marks_of_mark? hd) (hc.trans hd.symm)

theorem NumeralText.first {n : Numeral} {w : List Char} (h : NumeralText n w) :
    ∃ c rest, w = c :: rest ∧
      (c.isDigit = true ∨ c = '-' ∧ ∃ d ∈ rest.head?, d.isDigit = true) := by
  obtain ⟨hn, exponent, -, rfl⟩ := h
  obtain ⟨d, ds, hwhole, hd⟩ := hn.whole.exists_digit
  cases hneg : n.negative with
  | false => exact ⟨d, _, by simp [Numeral.textWith, Binary64.signText, hneg, hwhole]; rfl, .inl hd⟩
  | true =>
      exact ⟨'-', _, by simp [Numeral.textWith, Binary64.signText, hneg, hwhole]; rfl,
        .inr ⟨rfl, d, rfl, hd⟩⟩

theorem exists_last_digit {digits : List Char} (hne : digits ≠ [])
    (hd : ∀ c ∈ digits, c.isDigit = true) : ∃ front c, digits = front ++ [c] ∧ c.isDigit = true :=
  ⟨digits.dropLast, digits.getLast hne, (List.dropLast_concat_getLast hne).symm,
    hd _ (List.getLast_mem hne)⟩

theorem Numeral.textWith_eq (n : Numeral) (exponent : List Char) :
    n.textWith exponent = n.textWith [] ++ exponent := by
  simp [textWith]

/-- The part in front of an exponent ends with a digit. -/
theorem Numeral.WellFormed.last {n : Numeral} (h : n.WellFormed) :
    ∃ front c, n.textWith [] = front ++ [c] ∧ c.isDigit = true := by
  have hparts : ∃ front c, n.whole ++ fractionText n.fraction = front ++ [c] ∧
      c.isDigit = true := by
    cases hf : n.fraction with
    | none =>
        rw [fractionText, List.append_nil]
        rcases h.whole with h | ⟨hne, -, hd⟩
        · exact ⟨[], '0', h, rfl⟩
        · exact exists_last_digit hne hd
    | some ds =>
        obtain ⟨front, c, hfront, hc⟩ := exists_last_digit (h.fraction ds hf).1 (h.fraction ds hf).2
        rw [fractionText, hfront]
        exact ⟨n.whole ++ '.' :: front, c, by simp, hc⟩
  obtain ⟨front, c, hfront, hc⟩ := hparts
  refine ⟨Binary64.signText n.negative ++ front, c, ?_, hc⟩
  rw [textWith, List.append_nil, hfront, List.append_assoc]

/-- A number ends with a digit. -/
theorem NumeralText.last {n : Numeral} {w : List Char} (h : NumeralText n w) :
    ∃ front c, w = front ++ [c] ∧ c.isDigit = true := by
  obtain ⟨hn, exponent, hexponent, rfl⟩ := h
  rw [Numeral.textWith_eq]
  generalize n.exponent = e at hexponent
  cases hexponent with
  | none =>
      rw [List.append_nil]
      exact hn.last
  | @some mark sign _ _ _ hne hd =>
      obtain ⟨front, c, hfront, hc⟩ := exists_last_digit hne hd
      rw [hfront]
      exact ⟨n.textWith [] ++ mark :: (sign ++ front), c, by simp, hc⟩

/-- The characters of numbers. -/
def numberChars : List Char := digits ++ ['-', '+', '.', 'e', 'E']

/-- The characters of tokens that are no strings. -/
def bareChars : List Char :=
  marks ++ numberChars ++ ['n', 'u', 'l', 't', 'r', 'f', 'a', 's', 'N', 'I', 'i', 'y']

theorem Numeral.WellFormed.chars {n : Numeral} (h : n.WellFormed) :
    ∀ c ∈ n.textWith [], c ∈ digits ++ ['-', '.'] := by
  have hdigit : ∀ {c : Char}, c.isDigit = true → c ∈ digits ++ ['-', '.'] := fun hc =>
    List.mem_append_left _ (mem_digits_of_isDigit hc)
  intro c hc
  simp only [textWith, List.append_nil, List.mem_append] at hc
  rcases hc with hc | hc | hc
  · revert hc
    revert c
    cases n.negative <;> decide
  · rcases h.whole with hzero | ⟨-, -, hd⟩
    · rw [hzero, List.mem_singleton] at hc
      rw [hc]
      decide
    · exact hdigit (hd c hc)
  · cases hf : n.fraction with
    | none =>
        rw [hf] at hc
        cases hc
    | some ds =>
        rw [hf] at hc
        rcases List.mem_cons.mp hc with rfl | hc
        · decide
        · exact hdigit ((h.fraction ds hf).2 c hc)

theorem NumeralText.chars {n : Numeral} {w : List Char} (h : NumeralText n w) :
    ∀ c ∈ w, c ∈ numberChars := by
  obtain ⟨hn, exponent, hexponent, rfl⟩ := h
  intro c hc
  rw [Numeral.textWith_eq, List.mem_append] at hc
  rcases hc with hc | hc
  · have hall : ∀ c ∈ digits ++ ['-', '.'], c ∈ numberChars := by decide
    exact hall c (hn.chars c hc)
  · generalize n.exponent = e at hexponent
    cases hexponent with
    | none => cases hc
    | some hmark hsign _ hd =>
        rcases List.mem_cons.mp hc with rfl | hc
        · rcases hmark with rfl | rfl <;> decide
        · rcases List.mem_append.mp hc with hc | hc
          · rcases hsign with rfl | rfl | rfl <;> simp at hc <;> rw [hc] <;> decide
          · exact List.mem_append_left _ (mem_digits_of_isDigit (hd c hc))

/-- A token is a string or written without quotes. -/
theorem TokenText.bare_or_string {t : Token} {w : List Char} (h : TokenText t w) :
    (∀ c ∈ w, c ∈ bareChars) ∨
      ∃ body chars, StringBody body chars ∧ w = '"' :: (body ++ ['"']) := by
  cases h with
  | mark h =>
      refine .inl fun c hc => ?_
      rw [List.mem_singleton.mp hc]
      exact List.mem_append_left _ (List.mem_append_left _ (mem_marks_of_mark? h))
  | word h =>
      have hall : ∀ x ∈ plainWords ++ numberWords, ∀ c ∈ x.1, c ∈ bareChars := by decide
      exact .inl (hall _ h)
  | number h =>
      exact .inl fun c hc => List.mem_append_left _ (List.mem_append_right _ (h.chars c hc))
  | string h => exact .inr ⟨_, _, h, rfl⟩

theorem TokenText.first {t : Token} {w : List Char} (h : TokenText t w) :
    ∃ c rest, w = c :: rest ∧ c ∈ firsts := by
  cases h with
  | mark h => exact ⟨_, [], rfl, by simp [firsts, mem_marks_of_mark? h]⟩
  | word h =>
      simp only [plainWords, numberWords, List.cons_append, List.nil_append, List.mem_cons,
        Prod.mk.injEq, List.not_mem_nil, or_false] at h
      rcases h with ⟨rfl, -⟩ | ⟨rfl, -⟩ | ⟨rfl, -⟩ | ⟨rfl, -⟩ | ⟨rfl, -⟩ | ⟨rfl, -⟩ <;>
        exact ⟨_, _, rfl, by decide⟩
  | number h =>
      obtain ⟨c, rest, rfl, hc | ⟨rfl, -⟩⟩ := h.first
      · exact ⟨c, rest, rfl, by simp [firsts, mem_digits_of_isDigit hc]⟩
      · exact ⟨'-', rest, rfl, by decide⟩
  | string h => exact ⟨'"', _, rfl, by decide⟩

theorem TokenText.last {t : Token} {w : List Char} (h : TokenText t w) :
    ∃ front c, w = front ++ [c] ∧ c ∈ lasts := by
  cases h with
  | mark h => exact ⟨[], _, rfl, by simp [lasts, mem_marks_of_mark? h]⟩
  | word h =>
      have hall : ∀ x ∈ plainWords ++ numberWords,
          x.1 ≠ [] ∧ ∀ c ∈ x.1.getLast?.toList, c ∈ lasts := by
        decide
      obtain ⟨hne, hlast⟩ := hall _ h
      exact ⟨w.dropLast, w.getLast hne, (List.dropLast_concat_getLast hne).symm,
        hlast _ (Option.mem_toList.mpr (List.getLast?_eq_some_getLast hne))⟩
  | number h =>
      obtain ⟨front, c, hw, hc⟩ := h.last
      exact ⟨front, c, hw, by simp [lasts, mem_digits_of_isDigit hc]⟩
  | @string body chars h => exact ⟨'"' :: body, '"', rfl, by decide⟩

theorem scanWord_number {n : Numeral} {w : List Char} (h : NumeralText n w) (rest : List Char) :
    scanWord (plainWords ++ numberWords) (w ++ rest) = none := by
  obtain ⟨c, t, rfl, hc | ⟨rfl, d, hd, hdigit⟩⟩ := h.first
  · have hne : ∀ x ∈ ['n', 't', 'f', 'N', 'I', '-'], x ≠ c := by
      rintro x hx rfl
      revert hc
      simp at hx
      rcases hx with rfl | rfl | rfl | rfl | rfl | rfl <;> decide
    simp [scanWord, plainWords, numberWords, hne]
  · cases t with
    | nil => cases hd
    | cons d' t =>
        cases hd
        have hne : 'I' ≠ d := by
          rintro rfl
          cases hdigit
        simp [scanWord, plainWords, numberWords, hne]

theorem isNumber_literal (n : Numeral) : Token.isNumber (.scalar n.literal) = true := by
  unfold Numeral.literal
  split <;> rfl

/-- A number starts with neither a quote nor a mark. -/
theorem NumeralText.bare_first {n : Numeral} {w : List Char} (h : NumeralText n w) :
    ∃ c tail, w = c :: tail ∧ c ≠ '"' ∧ mark? c = none := by
  obtain ⟨c, tail, rfl, hfirst⟩ := h.first
  have hc : c ∉ '"' :: marks := by
    rcases hfirst with hc | ⟨rfl, -⟩
    · intro hmem
      revert hc
      simp [marks] at hmem
      rcases hmem with rfl | rfl | rfl | rfl | rfl | rfl | rfl <;> decide
    · decide
  obtain ⟨hquote, hmark⟩ := not_or.mp (mt List.mem_cons.mpr hc)
  exact ⟨c, tail, rfl, hquote, mark?_eq_none hmark⟩

/-- A text of a token is read as the token, whatever follows it, if what follows does not continue
a number. -/
theorem TokenText.read {t : Token} {w : List Char} (h : TokenText t w) {rest : List Char}
    (hrest : t.isNumber = true → StopsNumber rest) :
    ∃ c tail, w = c :: tail ∧ symbolAt c (tail ++ rest) = (.token t, rest) := by
  cases h with
  | @mark c t h => exact ⟨c, [], rfl, by simp [symbolAt, h]⟩
  | word h =>
      simp only [plainWords, numberWords, List.cons_append, List.nil_append, List.mem_cons,
        Prod.mk.injEq, List.not_mem_nil, or_false] at h
      rcases h with ⟨rfl, rfl⟩ | ⟨rfl, rfl⟩ | ⟨rfl, rfl⟩ | ⟨rfl, rfl⟩ | ⟨rfl, rfl⟩ | ⟨rfl, rfl⟩ <;>
        exact ⟨_, _, rfl, by simp [symbolAt, mark?, scanWord, plainWords, numberWords]⟩
  | @number n w h =>
      have hscan := h.scan (hrest (isNumber_literal n))
      have hword := scanWord_number h rest
      obtain ⟨c, t, rfl, hquote, hmark⟩ := h.bare_first
      refine ⟨c, t, rfl, ?_⟩
      rw [List.cons_append] at hscan hword
      simp [symbolAt, hmark, hquote, hword, hscan]
  | @string body chars h =>
      refine ⟨'"', body ++ ['"'], rfl, ?_⟩
      have hscan := h.scan ('"' :: (body ++ '"' :: rest)) rest
      simp [symbolAt, mark?, hscan]

/-- What is read as a token is a text of that token. -/
theorem exists_tokenText {c : Char} {s rest : List Char} {t : Token}
    (h : symbolAt c s = (.token t, rest)) : ∃ w, TokenText t w ∧ c :: s = w ++ rest := by
  unfold symbolAt at h
  split at h
  next t' hmark =>
    cases h
    exact ⟨[c], .mark hmark, rfl⟩
  next =>
    split at h
    next hquote =>
      split at h
      next chars after hscan =>
        cases h
        obtain ⟨body, hbody, rfl⟩ := exists_stringBody hscan
        exact ⟨_, .string hbody, by simp [hquote]⟩
      next => cases h
    next =>
      split at h
      next t' after hword =>
        cases h
        obtain ⟨x, hmem, hx⟩ := List.exists_of_findSome?_eq_some hword
        split at hx
        next hprefix =>
          obtain ⟨tail, htail⟩ := List.isPrefixOf_iff_prefix.mp hprefix
          cases hx
          exact ⟨x.1, .word hmem, by rw [← htail, List.drop_left]⟩
        next => cases hx
      next =>
        split at h
        next n after hnumber =>
          cases h
          obtain ⟨w, hw, hs⟩ := exists_numeralText hnumber
          exact ⟨w, .number hw, hs⟩
        next => cases h

end Tokens

end TypeSketch.Json
