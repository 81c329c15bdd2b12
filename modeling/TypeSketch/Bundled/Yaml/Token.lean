import TypeSketch.Bundled.Yaml.Plain
import TypeSketch.Bundled.Yaml.Quoted

/-!
# Tokens of YAML

The tokens open and close every collection: brackets do so by themselves, and the collections that
are told by indentation open at their first entry and close at the first token left of them.  A
scalar is a key if a colon follows it on its line.

The notation covers collections and scalars in both forms.  Anchors, tags, directives and block
scalars are not part of it.
-/

namespace TypeSketch.Bundled.Yaml

/-- The collections: told by indentation, or in brackets. -/
inductive Collection
  | sequence
  | mapping
  | flowSequence
  | flowMapping
deriving DecidableEq

/-- What stands between the members of a collection. -/
inductive Mark
  | entry
  | comma
  | key
  | value
deriving DecidableEq

inductive Token
  | opening (collection : Collection)
  | closing (collection : Collection)
  | mark (mark : Mark)
  | plain (text : List Char)
  | quoted (text : List Char)
  | documentStart
  | documentEnd
deriving DecidableEq

/-- A collection that indentation tells. -/
structure Level where
  column : Nat
  collection : Collection
  /-- Whether it is a sequence no further indented than the mapping around it. -/
  isLoose : Bool

/-- A place in a text and what is known there. -/
structure Cursor where
  rest : List Char
  column : Nat
  /-- The open collections that indentation tells, innermost first. -/
  levels : List Level
  /-- The number of open brackets. -/
  depth : Nat
  /-- Whether a key may begin here. -/
  mayBeKey : Bool

/-- The text behind white space and comments. -/
def skipSpace (s : List Char) : List Char :=
  match _h : s.dropWhile (· = ' ') with
  | [] => []
  | c :: rest =>
      if c = '#' then skipSpace (rest.dropWhile fun d => !isBreak d)
      else if isBreak c then skipSpace rest
      else c :: rest
termination_by s.length
decreasing_by
  all_goals
    have h₁ := (List.dropWhile_sublist (l := s) (· = ' ')).length_le
    rw [_h] at h₁
    simp at h₁
  · have h₂ := (List.dropWhile_sublist (l := rest) fun d => !isBreak d).length_le
    omega
  · omega

theorem length_of_dropWhile_spaces {s rest : List Char} {c : Char}
    (h : s.dropWhile (· = ' ') = c :: rest) : rest.length < s.length := by
  have h₁ := (List.dropWhile_sublist (l := s) (· = ' ')).length_le
  rw [h] at h₁
  exact h₁

theorem length_skipSpace_le (s : List Char) : (skipSpace s).length ≤ s.length := by
  fun_induction skipSpace s
  case case1 => simp
  case case2 s rest hs ih =>
    have h₁ := length_of_dropWhile_spaces hs
    have h₂ := (List.dropWhile_sublist (l := rest) fun d => !isBreak d).length_le
    omega
  case case3 s c rest hs _ _ ih =>
    have h₁ := length_of_dropWhile_spaces hs
    omega
  case case4 s c rest hs _ _ =>
    exact length_of_dropWhile_spaces hs

/-- The levels that are left of a token at a column, and the ends of the others. -/
def unwind (column : Nat) (atEntry : Bool) : List Level → List Token × List Level
  | [] => ([], [])
  | l :: outer =>
      if column < l.column ∨ (l.isLoose ∧ column = l.column ∧ !atEntry) then
        let later := unwind column atEntry outer
        (.closing l.collection :: later.1, later.2)
      else ([], l :: outer)

/-- Opens a mapping at a column, unless one is open there. -/
def openMapping (column : Nat) (levels : List Level) : List Token × List Level :=
  match levels with
  | l :: _ =>
      if l.column < column then ([.opening .mapping], ⟨column, .mapping, false⟩ :: levels)
      else ([], levels)
  | [] => ([.opening .mapping], [⟨column, .mapping, false⟩])

/-- Opens a sequence at a column, unless one is open there. -/
def openSequence (column : Nat) (levels : List Level) : List Token × List Level :=
  match levels with
  | l :: _ =>
      if l.column < column then ([.opening .sequence], ⟨column, .sequence, false⟩ :: levels)
      else if l.collection = .mapping then
        ([.opening .sequence], ⟨column, .sequence, true⟩ :: levels)
      else ([], levels)
  | [] => ([.opening .sequence], [⟨column, .sequence, false⟩])

/-- The longest key, with the white space up to its colon. -/
def longestKey : Nat := 1024

namespace Cursor

def inBrackets (s : Cursor) : Bool := 0 < s.depth

/-- The cursor with the text from some later place on. -/
def goTo (s : Cursor) (rest : List Char) : Cursor :=
  { s with rest, column := columnAfter s.column (passed s.rest rest) }

/-- The cursor at the next token.  A new line outside of brackets may begin with a key. -/
def skip (s : Cursor) : Cursor :=
  let rest := skipSpace s.rest
  let crossed := (passed s.rest rest).any isBreak
  { s.goTo rest with mayBeKey := s.mayBeKey || (crossed && !s.inBrackets) }

/-- Whether a token here has to be a key, as it stands where the entries of a collection start. -/
def mustBeKey (s : Cursor) : Bool :=
  s.mayBeKey && !s.inBrackets && s.levels.head?.any (·.column = s.column)

/-- What follows the colon, if a scalar that ends in front of `after` is a key. -/
def behindKey? (s : Cursor) (after : List Char) : Option (List Char) :=
  match after.dropWhile (· = ' ') with
  | ':' :: rest =>
      if s.mayBeKey && !(passed s.rest after).any isBreak && (s.inBrackets || atWordEnd rest) &&
          (passed s.rest (':' :: rest)).length ≤ longestKey then some rest
      else none
  | _ => none

/-- The tokens of a scalar that ends in front of `after`. -/
def scalar (s : Cursor) (token : Token) (after : List Char) : Option (List Token × Cursor) :=
  match s.behindKey? after with
  | some rest =>
      let opened := if s.inBrackets then ([], s.levels) else openMapping s.column s.levels
      some (opened.1 ++ [.mark .key, token, .mark .value],
        { s.goTo rest with levels := opened.2, mayBeKey := false })
  | none =>
      if s.mustBeKey then none
      else some ([token], { s.goTo after with mayBeKey := false })

/-- The mark between documents at the start of a line. -/
def documentMark (s : Cursor) (rest : List Char) : Option (List Token × Cursor) :=
  if s.inBrackets then none
  else
    let ends := s.levels.map fun l => Token.closing l.collection
    let mark := if s.rest.head? = some '-' then Token.documentStart else .documentEnd
    some (ends ++ [mark], { s.goTo (rest.drop 2) with levels := [], mayBeKey := false })

/-- An opening bracket, which cannot begin a key. -/
def bracket (s : Cursor) (collection : Collection) (rest : List Char) :
    Option (List Token × Cursor) :=
  if s.mustBeKey then none
  else some ([.opening collection], { s.goTo rest with depth := s.depth + 1, mayBeKey := true })

/-- A closing bracket or a comma. -/
def inside (s : Cursor) (token : Token) (depth : Nat) (mayBeKey : Bool) (rest : List Char) :
    Option (List Token × Cursor) :=
  if s.inBrackets then some ([token], { s.goTo rest with depth, mayBeKey }) else none

/-- A mark of a mapping that stands alone: outside of brackets it begins an entry of its own. -/
def loneMark (s : Cursor) (mark : Mark) (rest : List Char) : Option (List Token × Cursor) :=
  if s.inBrackets then some ([.mark mark], { s.goTo rest with mayBeKey := false })
  else if !s.mayBeKey then none
  else
    let opened := openMapping s.column s.levels
    some (opened.1 ++ [.mark mark], { s.goTo rest with levels := opened.2 })

/-- The mark of an entry of a sequence that indentation tells. -/
def entry (s : Cursor) (rest : List Char) : Option (List Token × Cursor) :=
  if s.inBrackets || !s.mayBeKey then none
  else
    let opened := openSequence s.column s.levels
    some (opened.1 ++ [.mark .entry], { s.goTo rest with levels := opened.2 })

/-- A scalar without quotes. -/
def plain (s : Cursor) : Option (List Token × Cursor) :=
  let least := (s.levels.head?.map (·.column + 1)).getD 0
  let read := plainFrom s.inBrackets least s.rest
  s.scalar (.plain read.1) read.2

/-- A scalar in quotes. -/
def quoted (s : Cursor) (quote : Char) (rest : List Char) : Option (List Token × Cursor) :=
  match quotedFrom quote rest with
  | some (text, after) => s.scalar (.quoted text) after
  | none => none

/-- Whether a plain scalar may begin with the character. -/
def beginsPlain (s : Cursor) (c : Char) (rest : List Char) : Bool :=
  if c = '-' then !atWordEnd rest
  else if c = '?' ∨ c = ':' then !s.inBrackets && !atWordEnd rest
  else !(isFlowMark c || isBlank c || isBreak c ||
    ['#', '&', '*', '!', '|', '>', '\'', '"', '%', '@', Char.ofNat 0x60].contains c)

/-- The tokens of the next step, with the ends of what lies to the right of them, and the cursor
behind them. -/
def step (s : Cursor) (c : Char) (rest : List Char) : Option (List Token × Cursor) :=
  if s.column = 0 && isDocumentMark (c :: rest) then s.documentMark rest
  else if c = '[' then s.bracket .flowSequence rest
  else if c = '\x7b' then s.bracket .flowMapping rest
  else if c = ']' then s.inside (.closing .flowSequence) (s.depth - 1) false rest
  else if c = '\x7d' then s.inside (.closing .flowMapping) (s.depth - 1) false rest
  else if c = ',' then s.inside (.mark .comma) s.depth true rest
  else if c = '-' && atWordEnd rest then s.entry rest
  else if c = '?' && (s.inBrackets || atWordEnd rest) then s.loneMark .key rest
  else if c = ':' && (s.inBrackets || atWordEnd rest) then s.loneMark .value rest
  else if c = '\'' ∨ c = '"' then s.quoted c rest
  else if s.beginsPlain c rest then s.plain
  else none

/-- The cursor without the levels that end at the next token, and their ends. -/
def settle (s : Cursor) (c : Char) (rest : List Char) : List Token × Cursor :=
  if s.inBrackets then ([], s)
  else
    let left := unwind s.column (c = '-' && atWordEnd rest) s.levels
    (left.1, { s with levels := left.2 })

end Cursor

namespace Cursor

theorem length_scalar {s next : Cursor} {token : Token} {after : List Char} {ts : List Token}
    (h : s.scalar token after = some (ts, next)) : next.rest.length ≤ after.length := by
  unfold scalar at h
  split at h
  next rest hr =>
    cases h
    unfold behindKey? at hr
    split at hr
    next r hd =>
      split at hr
      · cases hr
        exact Nat.le_of_lt (length_of_dropWhile_spaces hd)
      · cases hr
    next => cases hr
  next =>
    split at h
    · cases h
    · cases h
      exact Nat.le_refl _

theorem endsRun_of_beginsPlain {s : Cursor} {c : Char} {rest : List Char}
    (h : s.beginsPlain c rest = true) : endsRun s.inBrackets c rest = false := by
  unfold beginsPlain at h
  split at h
  next hc =>
    subst hc
    simp [endsRun, isBlank, isBreak, isFlowMark]
  next =>
    split at h
    next hc =>
      rcases hc with rfl | rfl <;>
        simp_all [endsRun, isBlank, isBreak, isFlowMark, isValueEnd]
    next hc => simp_all [endsRun]

theorem length_plain {s next : Cursor} {c : Char} {rest : List Char} {ts : List Token}
    (hs : s.rest = c :: rest) (hc : s.beginsPlain c rest = true)
    (h : s.plain = some (ts, next)) : next.rest.length ≤ rest.length := by
  unfold plain at h
  have h₁ := length_scalar h
  have h₂ := length_plainFrom_le s.inBrackets ((s.levels.head?.map (·.column + 1)).getD 0) s.rest
  have h₃ : (plainRun s.inBrackets s.rest).2.length ≤ rest.length := by
    rw [hs]
    simp only [plainRun, endsRun_of_beginsPlain hc]
    exact length_plainRun_le s.inBrackets rest
  omega

theorem length_quoted {s next : Cursor} {quote : Char} {rest : List Char} {ts : List Token}
    (h : s.quoted quote rest = some (ts, next)) : next.rest.length ≤ rest.length := by
  unfold quoted at h
  split at h
  next hq => exact Nat.le_trans (length_scalar h) (Nat.le_of_lt (length_quotedFrom hq))
  next => cases h

theorem length_documentMark {s next : Cursor} {rest : List Char} {ts : List Token}
    (h : s.documentMark rest = some (ts, next)) : next.rest.length ≤ rest.length := by
  unfold documentMark at h
  split at h
  · cases h
  · cases h
    simp [goTo]

theorem rest_bracket {s next : Cursor} {collection : Collection} {rest : List Char}
    {ts : List Token} (h : s.bracket collection rest = some (ts, next)) : next.rest = rest := by
  unfold bracket at h
  split at h
  · cases h
  · cases h
    rfl

theorem rest_inside {s next : Cursor} {token : Token} {depth : Nat} {mayBeKey : Bool}
    {rest : List Char} {ts : List Token}
    (h : s.inside token depth mayBeKey rest = some (ts, next)) : next.rest = rest := by
  unfold inside at h
  split at h
  · cases h
    rfl
  · cases h

theorem rest_loneMark {s next : Cursor} {mark : Mark} {rest : List Char} {ts : List Token}
    (h : s.loneMark mark rest = some (ts, next)) : next.rest = rest := by
  unfold loneMark at h
  split at h
  · cases h
    rfl
  · split at h
    · cases h
    · cases h
      rfl

theorem rest_entry {s next : Cursor} {rest : List Char} {ts : List Token}
    (h : s.entry rest = some (ts, next)) : next.rest = rest := by
  unfold entry at h
  split at h
  · cases h
  · cases h
    rfl

theorem of_ite_eq {α : Type} {p : Prop} [Decidable p] {a b c : α} {q : Prop}
    (h : (if p then a else b) = c) (ha : p → a = c → q) (hb : ¬p → b = c → q) : q := by
  by_cases hp : p
  · rw [if_pos hp] at h
    exact ha hp h
  · rw [if_neg hp] at h
    exact hb hp h

theorem length_step {s next : Cursor} {c : Char} {rest : List Char} {ts : List Token}
    (hs : s.rest = c :: rest) (h : s.step c rest = some (ts, next)) :
    next.rest.length ≤ rest.length := by
  refine of_ite_eq h (fun _ h => length_documentMark h) fun _ h => ?_
  refine of_ite_eq h (fun _ h => Nat.le_of_eq (congrArg _ (rest_bracket h))) fun _ h => ?_
  refine of_ite_eq h (fun _ h => Nat.le_of_eq (congrArg _ (rest_bracket h))) fun _ h => ?_
  refine of_ite_eq h (fun _ h => Nat.le_of_eq (congrArg _ (rest_inside h))) fun _ h => ?_
  refine of_ite_eq h (fun _ h => Nat.le_of_eq (congrArg _ (rest_inside h))) fun _ h => ?_
  refine of_ite_eq h (fun _ h => Nat.le_of_eq (congrArg _ (rest_inside h))) fun _ h => ?_
  refine of_ite_eq h (fun _ h => Nat.le_of_eq (congrArg _ (rest_entry h))) fun _ h => ?_
  refine of_ite_eq h (fun _ h => Nat.le_of_eq (congrArg _ (rest_loneMark h))) fun _ h => ?_
  refine of_ite_eq h (fun _ h => Nat.le_of_eq (congrArg _ (rest_loneMark h))) fun _ h => ?_
  refine of_ite_eq h (fun _ h => length_quoted h) fun _ h => ?_
  exact of_ite_eq h (fun hc h => length_plain hs hc h) fun _ h => nomatch h

theorem rest_settle (s : Cursor) (c : Char) (rest : List Char) :
    (s.settle c rest).2.rest = s.rest := by
  unfold settle
  split <;> rfl

/-- The tokens from a cursor on. -/
def tokens (s : Cursor) : Option (List Token) :=
  match _h : s.skip.rest with
  | [] => if s.inBrackets then none else some (s.levels.map fun l => .closing l.collection)
  | c :: rest =>
      let settled := s.skip.settle c rest
      match _hs : settled.2.step c rest with
      | none => none
      | some (ts, next) => next.tokens.map fun later => settled.1 ++ ts ++ later
termination_by s.rest.length
decreasing_by
  have h₁ := length_step ((rest_settle s.skip c rest).trans _h) _hs
  have h₂ : s.skip.rest.length ≤ s.rest.length := length_skipSpace_le s.rest
  rw [_h] at h₂
  simp at h₂
  omega

end Cursor

/-- The tokens of a text, where a byte order mark in front takes no room. -/
def tokens (s : List Char) : Option (List Token) :=
  let rest := if s.head? = some '\uFEFF' then s.drop 1 else s
  Cursor.tokens ⟨rest, 0, [], 0, true⟩

end TypeSketch.Bundled.Yaml
