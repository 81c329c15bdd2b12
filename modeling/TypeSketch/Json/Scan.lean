import TypeSketch.Json.Number
import TypeSketch.Json.Token
import TypeSketch.Text.Surrogate

/-!
# Reading tokens

`symbols s` splits a text into its tokens.  Each symbol carries the text from its start on, and the
list ends early at the first place where no token begins or a string breaks off.
-/

namespace TypeSketch.Json

/-- White space between tokens. -/
def isSpace (c : Char) : Bool :=
  c = ' ' || c = '\t' || c = '\n' || c = '\r'

/-- The character that a one-letter escape stands for. -/
def escaped? (c : Char) : Option Char :=
  if c = '"' ∨ c = '\\' ∨ c = '/' then some c
  else if c = 'b' then some '\x08'
  else if c = 'f' then some '\x0c'
  else if c = 'n' then some '\n'
  else if c = 'r' then some '\r'
  else if c = 't' then some '\t'
  else none

/-- The number that four hexadecimal digits stand for, if the text goes on behind them. -/
def codeUnit? : List Char → Option Nat
  | a :: b :: c :: d :: _ :: _ => Text.hexQuad? a b c d
  | _ => none

/-- The character of an escape whose `u` has been read, and the number of characters the escape
has from the `u` on.  A pair of halves is one character. -/
def codeEscape (s : List Char) : Except Fault (Char × Nat) :=
  match codeUnit? s with
  | none => .error ⟨.invalidCodeEscape, 'u' :: s⟩
  | some code =>
      if Text.isHighSurrogate code then
        match s.drop 4 with
        | '\\' :: 'u' :: t =>
            if t.length < 5 then .ok (Text.charOfCode code, 5)
            else
              match codeUnit? t with
              | none => .error ⟨.invalidCodeEscape, 'u' :: t⟩
              | some low =>
                  if Text.isLowSurrogate low then .ok (Text.joinSurrogates code low, 11)
                  else .ok (Text.charOfCode code, 5)
        | _ => .ok (Text.charOfCode code, 5)
      else .ok (Text.charOfCode code, 5)

/-- The character of an escape whose backslash has been read, and the number of characters the
escape has behind the backslash. -/
def escape (opening : List Char) : List Char → Except Fault (Char × Nat)
  | [] => .error ⟨.unterminatedString, opening⟩
  | c :: rest =>
      if c = 'u' then codeEscape rest
      else
        match escaped? c with
        | some e => .ok (e, 1)
        | none => .error ⟨.invalidEscape, '\\' :: c :: rest⟩

theorem exists_of_map_eq_ok {ε α β : Type} {f : α → β} {x : Except ε α} {b : β}
    (h : x.map f = .ok b) : ∃ a, x = .ok a ∧ f a = b := by
  cases x with
  | error e => cases h
  | ok a => exact ⟨a, rfl, Except.ok.inj h⟩

/-- The characters of a string up to its closing quote, and what follows it.  `opening` is the
text from the opening quote on. -/
def scanString (opening : List Char) (s : List Char) : Except Fault (List Char × List Char) :=
  match s with
  | [] => .error ⟨.unterminatedString, opening⟩
  | c :: rest =>
      if c = '"' then .ok ([], rest)
      else if c = '\\' then
        match escape opening rest with
        | .error fault => .error fault
        | .ok (e, n) => (scanString opening (rest.drop n)).map fun r => (e :: r.1, r.2)
      else if c.toNat < 0x20 then .error ⟨.controlCharacter, c :: rest⟩
      else (scanString opening rest).map fun r => (c :: r.1, r.2)
termination_by s.length
decreasing_by all_goals (simp only [List.length_drop, List.length_cons]; omega)

theorem length_scanString {opening s chars rest : List Char}
    (h : scanString opening s = .ok (chars, rest)) : rest.length < s.length := by
  fun_induction scanString opening s generalizing chars rest
  case case1 => cases h
  case case2 => cases h; simp
  case case3 => cases h
  case case4 tail e n _ ih =>
    obtain ⟨r, hr, h⟩ := exists_of_map_eq_ok h
    have := @ih r.1 r.2 hr
    cases h
    simp at *
    omega
  case case5 => cases h
  case case6 tail _ _ _ ih =>
    obtain ⟨r, hr, h⟩ := exists_of_map_eq_ok h
    have := @ih r.1 r.2 hr
    cases h
    simp at *
    omega

/-- The words for null and the truth values. -/
def plainWords : List (List Char × Token) :=
  [(['n', 'u', 'l', 'l'], .null),
   (['t', 'r', 'u', 'e'], .scalar (.bool true)),
   (['f', 'a', 'l', 's', 'e'], .scalar (.bool false))]

/-- The words for the numbers without digits. -/
def numberWords : List (List Char × Token) :=
  [(['N', 'a', 'N'], .scalar (.float .nan)),
   (['I', 'n', 'f', 'i', 'n', 'i', 't', 'y'], .scalar (.float (.infinite false))),
   (['-', 'I', 'n', 'f', 'i', 'n', 'i', 't', 'y'], .scalar (.float (.infinite true)))]

/-- The first of the words that the text starts with, and what follows it. -/
def scanWord (words : List (List Char × Token)) (s : List Char) : Option (Token × List Char) :=
  words.findSome? fun w => if w.1.isPrefixOf s then some (w.2, s.drop w.1.length) else none

/-- The token that a punctuation mark is. -/
def mark? (c : Char) : Option Token :=
  if c = '[' then some .openArray
  else if c = ']' then some .closeArray
  else if c = '{' then some .openObject
  else if c = '}' then some .closeObject
  else if c = ',' then some .comma
  else if c = ':' then some .colon
  else none

/-- The symbol at the start of a text without leading white space, and what follows it; nothing
follows a fault. -/
def symbolAt (c : Char) (rest : List Char) : Symbol × List Char :=
  match mark? c with
  | some t => (.token t, rest)
  | none =>
      if c = '"' then
        match scanString (c :: rest) rest with
        | .ok (chars, after) => (.token (.scalar (.str (String.ofList chars))), after)
        | .error fault => (.brokenString fault, [])
      else
        match scanWord (plainWords ++ numberWords) (c :: rest) with
        | some (t, after) => (.token t, after)
        | none =>
            match scanNumeral (c :: rest) with
            | some (n, after) => (.token (.scalar n.literal), after)
            | none => (.other, [])

theorem length_pos_of_mem_words : ∀ w ∈ plainWords ++ numberWords, 0 < w.1.length := by
  simp [plainWords, numberWords]

theorem length_scanWord {words : List (List Char × Token)} (hw : ∀ w ∈ words, 0 < w.1.length)
    {s rest : List Char} {t : Token} (h : scanWord words s = some (t, rest)) :
    rest.length < s.length := by
  obtain ⟨w, hmem, h⟩ := List.exists_of_findSome?_eq_some h
  have hlen := hw w hmem
  split at h
  next hp =>
    have := (List.isPrefixOf_iff_prefix.1 hp).length_le
    simp only [Option.some.injEq, Prod.mk.injEq] at h
    simp [← h.2]
    omega
  next => cases h

theorem length_symbolAt_le (c : Char) (rest : List Char) :
    (symbolAt c rest).2.length ≤ rest.length := by
  unfold symbolAt
  split
  · simp
  · split
    · split
      next h => exact Nat.le_of_lt (length_scanString h)
      next => simp
    · split
      next h => simpa using Nat.le_of_lt_succ (length_scanWord length_pos_of_mem_words h)
      next =>
        split
        next h => simpa using Nat.le_of_lt_succ (length_scanNumeral h)
        next => simp

/-- The symbols of a text, each with the text from its start on. -/
def symbols (s : List Char) : List (List Char × Symbol) :=
  match _h : s.dropWhile isSpace with
  | [] => []
  | c :: rest => (c :: rest, (symbolAt c rest).1) :: symbols (symbolAt c rest).2
termination_by s.length
decreasing_by
  have h₁ := length_symbolAt_le c rest
  have h₂ := (List.dropWhile_sublist (l := s) isSpace).length_le
  rw [_h] at h₂
  simp at h₂
  omega

end TypeSketch.Json
