import TypeSketch.Text.Digits
import TypeSketch.Text.Surrogate
import TypeSketch.Bundled.Yaml.Line

/-!
# Quoted scalars

In single quotes only the quote itself is written in another way, twice; in double quotes a
backslash starts an escape.  Blanks around a line break are dropped.
-/

namespace TypeSketch.Bundled.Yaml

/-- The escapes of one letter. -/
def escapes : List (Char × Char) :=
  [('0', '\x00'), ('a', '\x07'), ('b', '\x08'), ('t', '\t'), ('\t', '\t'), ('n', '\n'),
   ('v', '\x0b'), ('f', '\x0c'), ('r', '\r'), ('e', '\x1b'), (' ', ' '), ('"', '"'),
   ('\\', '\\'), ('/', '/'), ('N', '\x85'), ('_', '\xa0'), ('L', '\u2028'), ('P', '\u2029')]

/-- The escapes by number, with the count of their digits. -/
def codeEscapes : List (Char × Nat) :=
  [('x', 2), ('u', 4), ('U', 8)]

/-- The number that hexadecimal digits spell, if all of them are such. -/
def hexValue? (digits : List Char) : Option Nat :=
  digits.foldlM (fun n c => (Text.hexDigit? c).map (n * 16 + ·)) 0

/-- The text of an escape and what follows it, from behind the backslash on. -/
def escape? : List Char → Option (List Char × List Char)
  | [] => none
  | c :: rest =>
      match escapes.lookup c, codeEscapes.lookup c with
      | some e, _ => some ([e], rest)
      | none, some count =>
          match hexValue? (rest.take count) with
          | some code =>
              if rest.length < count ∨ 0x10FFFF < code then none
              else some ([Text.charOfCode code], rest.drop count)
          | none => none
      | none, none => if isBreak c then emptyLines isBlank rest else none

theorem length_escape {s text rest : List Char} (h : escape? s = some (text, rest)) :
    rest.length < s.length := by
  cases s with
  | nil => cases h
  | cons c after =>
    simp only [escape?] at h
    split at h
    · cases h; simp
    · split at h
      · split at h
        · cases h
        · cases h; simp only [List.length_cons, List.length_drop]; omega
      · cases h
    · split at h
      · have := length_emptyLines_le h
        simp
        omega
      · cases h

/-- White space inside a quoted scalar: how it reads, and what follows it. -/
def quotedGap? (s : List Char) : Option (List Char × List Char) :=
  match s.dropWhile isBlank with
  | [] => none
  | c :: after =>
      if isBreak c then
        (emptyLines isBlank after).map fun lines => (fold c lines.1, lines.2)
      else some (s.takeWhile isBlank, c :: after)

theorem length_quotedGap {c : Char} {s text rest : List Char} (hc : isBlank c || isBreak c)
    (h : quotedGap? (c :: s) = some (text, rest)) : rest.length < (c :: s).length := by
  unfold quotedGap? at h
  have hd := (List.dropWhile_sublist (l := c :: s) isBlank).length_le
  split at h
  next => cases h
  next d after hs =>
    rw [hs] at hd
    simp at hd
    split at h
    · obtain ⟨lines, hl, he⟩ := Option.map_eq_some_iff.1 h
      have := length_emptyLines_le hl
      cases he
      simp
      omega
    next hb =>
      cases h
      by_cases hblank : isBlank c
      · simp only [List.dropWhile_cons, hblank, if_true] at hs
        have := (List.dropWhile_sublist (l := s) isBlank).length_le
        rw [hs] at this
        simp at this ⊢
        omega
      · simp only [List.dropWhile_cons, hblank] at hs
        cases hs
        simp_all

/-- The text of a scalar from behind its opening quote on, and what follows its closing quote. -/
def quotedFrom (quote : Char) (s : List Char) : Option (List Char × List Char) :=
  match s with
  | [] => none
  | c :: rest =>
      if c = quote then
        if quote = '\'' ∧ rest.head? = some '\'' then
          (quotedFrom quote rest.tail).map fun later => ('\'' :: later.1, later.2)
        else some ([], rest)
      else if c = '\\' ∧ quote = '"' then
        match _h : escape? rest with
        | none => none
        | some (text, after) =>
            (quotedFrom quote after).map fun later => (text ++ later.1, later.2)
      else if _hc : isBlank c || isBreak c then
        match _h : quotedGap? (c :: rest) with
        | none => none
        | some (text, after) =>
            (quotedFrom quote after).map fun later => (text ++ later.1, later.2)
      else (quotedFrom quote rest).map fun later => (c :: later.1, later.2)
termination_by s.length
decreasing_by
  · simp only [List.length_tail, List.length_cons]
    omega
  · have := length_escape _h
    simp
    omega
  · exact length_quotedGap _hc _h
  · simp

theorem length_quotedFrom {quote : Char} {s text rest : List Char}
    (h : quotedFrom quote s = some (text, rest)) : rest.length < s.length := by
  fun_induction quotedFrom quote s generalizing text
  case case1 => cases h
  case case2 ih =>
    obtain ⟨later, hl, he⟩ := Option.map_eq_some_iff.1 h
    cases he
    have := ih hl
    simp at this ⊢
    omega
  case case3 => cases h; simp
  case case4 => cases h
  case case5 hesc ih =>
    obtain ⟨later, hl, he⟩ := Option.map_eq_some_iff.1 h
    cases he
    have h₁ := ih hl
    have h₂ := length_escape hesc
    simp
    omega
  case case6 => cases h
  case case7 hc _ _ hgap ih =>
    obtain ⟨later, hl, he⟩ := Option.map_eq_some_iff.1 h
    cases he
    have h₁ := ih hl
    have h₂ := length_quotedGap hc hgap
    omega
  case case8 ih =>
    obtain ⟨later, hl, he⟩ := Option.map_eq_some_iff.1 h
    cases he
    have := ih hl
    simp
    omega

end TypeSketch.Bundled.Yaml
