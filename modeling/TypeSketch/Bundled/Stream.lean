import TypeSketch.Json.Parser
import TypeSketch.Source

/-!
# A reader for streams

A stand-in for the library that streams documents, to run the program with.  Statements about the
program are about any such library and not about this one.

Its notation is stricter than that of a whole document in some points and looser in others.  Integers
beyond 64 bits and decimals beyond the finite ones are faults, and so are the words for numbers
without digits and a point or an exponent mark without digits.  Vertical tabs and form feeds are
white space.  A high half of a surrogate pair takes the escape behind it for its low half; without
one it reads as a question mark and swallows the character behind it.
-/

namespace TypeSketch.Bundled.Stream

open Json (Token State Numeral)

/-- White space between the tokens of a stream. -/
def isSpace (c : Char) : Bool :=
  Json.isSpace c || c = '\x0b' || c = '\x0c'

/-- A string as it is written, from behind its opening quote. -/
inductive Written
  /-- The characters up to the closing quote, escapes included, and what follows. -/
  | closed (chars rest : List Char)
  /-- A string that the text ends in. -/
  | unfinished
  | broken

/-- The string with some more characters in front. -/
def Written.prepend (front : List Char) : Written → Written
  | .closed chars rest => .closed (front ++ chars) rest
  | w => w

/-- Finds the end of a string and checks its escapes. -/
def written : List Char → Written
  | [] => .unfinished
  | '"' :: rest => .closed [] rest
  | '\\' :: 'u' :: a :: b :: c :: d :: rest =>
      if (Text.hexQuad? a b c d).isSome then (written rest).prepend ['\\', 'u', a, b, c, d]
      else .broken
  | '\\' :: e :: rest =>
      if (Json.escaped? e).isSome then (written rest).prepend ['\\', e] else .broken
  | c :: rest =>
      if c = '\\' ∨ c.toNat < 0x20 then .broken else (written rest).prepend [c]

theorem Written.eq_closed_of_prepend {front chars rest : List Char} {w : Written}
    (h : w.prepend front = .closed chars rest) : ∃ inner, w = .closed inner rest := by
  cases w with
  | closed inner after => cases h; exact ⟨inner, rfl⟩
  | unfinished => cases h
  | broken => cases h

theorem length_written {s chars rest : List Char} (h : written s = .closed chars rest) :
    rest.length < s.length := by
  fun_induction written s generalizing chars rest
  case case1 => cases h
  case case2 => cases h; simp
  case case3 ih =>
    obtain ⟨inner, h⟩ := Written.eq_closed_of_prepend h
    have := ih h
    simp
    omega
  case case4 => cases h
  case case5 ih =>
    obtain ⟨inner, h⟩ := Written.eq_closed_of_prepend h
    have := ih h
    simp
    omega
  case case6 => cases h
  case case7 => cases h
  case case8 ih =>
    obtain ⟨inner, h⟩ := Written.eq_closed_of_prepend h
    have := ih h
    simp
    omega

/-- The characters that a written string stands for, unless half a surrogate pair is left. -/
def resolve : List Char → Option (List Char)
  | [] => some []
  | '\\' :: 'u' :: a :: b :: c :: d :: rest => do
      let code ← Text.hexQuad? a b c d
      if Text.isLowSurrogate code then none
      else if Text.isHighSurrogate code then
        match rest with
        | '\\' :: 'u' :: a :: b :: c :: d :: rest => do
            let low ← Text.hexQuad? a b c d
            let chars ← resolve rest
            some (Text.joinSurrogates code (0xDC00 + low % 0x400) :: chars)
        | [] => some ['?']
        | c :: rest => if c.toNat < 0x80 then (resolve rest).map ('?' :: ·) else none
      else (resolve rest).map (Char.ofNat code :: ·)
  | '\\' :: e :: rest => do
      let c ← Json.escaped? e
      (resolve rest).map (c :: ·)
  | c :: rest => if c = '\\' then none else (resolve rest).map (c :: ·)

/-- Whether the text behind a number starts with a point or an exponent mark that could have
belonged to it, had digits followed. -/
def isBroken (n : Numeral) (rest : List Char) : Bool :=
  n.exponent.isNone &&
    match rest with
    | c :: _ => c = 'e' || c = 'E' || (c = '.' && n.fraction.isNone)
    | [] => false

/-- Whether a number can be read from a stream. -/
def isAdmitted : Literal → Bool
  | .int n => n.natAbs ≤ 9223372036854775807
  | .float (.infinite _) => false
  | _ => true

/-- What a stream holds at one place. -/
inductive Lexeme
  | token (token : Token)
  /-- A string that the text ends in. -/
  | unfinished
  | broken

/-- The lexeme at the start of a text without leading white space, and what follows it; nothing
follows a fault. -/
def lexemeAt (c : Char) (rest : List Char) : Lexeme × List Char :=
  match Json.mark? c with
  | some t => (.token t, rest)
  | none =>
      if c = '"' then
        match written rest with
        | .closed chars after =>
            match resolve chars with
            | some s => (.token (.scalar (.str (String.ofList s))), after)
            | none => (.broken, [])
        | .unfinished => (.unfinished, [])
        | .broken => (.broken, [])
      else
        match Json.scanWord Json.plainWords (c :: rest) with
        | some (t, after) => (.token t, after)
        | none =>
            match Json.scanNumeral (c :: rest) with
            | some (n, after) =>
                if isBroken n after || !isAdmitted n.literal then (.broken, [])
                else (.token (.scalar n.literal), after)
            | none => (.broken, [])

theorem length_pos_of_mem_plainWords : ∀ w ∈ Json.plainWords, 0 < w.1.length := by
  simp [Json.plainWords]

theorem length_lexemeAt_le (c : Char) (rest : List Char) :
    (lexemeAt c rest).2.length ≤ rest.length := by
  unfold lexemeAt
  split
  · simp
  · split
    · split
      next h =>
        have := length_written h
        split <;> simp
        omega
      next => simp
      next => simp
    · split
      next h =>
        have := Json.length_scanWord length_pos_of_mem_plainWords h
        simpa using Nat.le_of_lt_succ this
      next =>
        split
        next h =>
          have := Json.length_scanNumeral h
          split <;> simp at this ⊢
          omega
        next => simp

def lexemes (s : List Char) : List Lexeme :=
  match _h : s.dropWhile isSpace with
  | [] => []
  | c :: rest => (lexemeAt c rest).1 :: lexemes (lexemeAt c rest).2
termination_by s.length
decreasing_by
  have h₁ := length_lexemeAt_le c rest
  have h₂ := (List.dropWhile_sublist (l := s) isSpace).length_le
  rw [_h] at h₂
  simp at h₂
  omega

/-- The item that has just been completed. -/
def completed? : State → Option Json
  | .afterElement (v :: _) [] => some v
  | .afterField ((name, v) :: _) [] => if name = "item" then some v else none
  | _ => none

def isFinished : State → Bool
  | .finished _ => true
  | _ => false

/-- The items that are completed from a state on, and whether the document is in order to its end.
A string that never ends is passed over behind the document. -/
def itemsFrom (state : State) : List Lexeme → List Json × Bool
  | [] => ([], isFinished state)
  | .token t :: rest =>
      match state.step? t with
      | some next =>
          let later := itemsFrom next rest
          ((completed? next).toList ++ later.1, later.2)
      | none => ([], false)
  | .unfinished :: _ => ([], isFinished state)
  | .broken :: _ => ([], false)

end TypeSketch.Bundled.Stream

namespace TypeSketch.Bundled

/-- Streams a document.  A number is complete only at a character that does not belong to it, which
the end of the document provides. -/
def stream : Streamer := fun octets =>
  match Text.Utf8.decodeFrom none octets with
  | (chars, none) =>
      let result := Stream.itemsFrom (.value []) (Stream.lexemes (chars ++ [' ']))
      ⟨result.1, result.2⟩
  | (chars, some _) => ⟨(Stream.itemsFrom (.value []) (Stream.lexemes chars)).1, false⟩

end TypeSketch.Bundled
