import TypeSketch.Bundled.Yaml.Line

/-!
# Plain scalars

A plain scalar goes on to a colon in front of white space, to a comment, or to a line that is not
indented enough.  Inside brackets it also ends at commas, question marks and brackets.
-/

namespace TypeSketch.Bundled.Yaml

/-- The comma and the brackets. -/
def isFlowMark (c : Char) : Bool :=
  c = ',' || c = '[' || c = ']' || c = '\x7b' || c = '\x7d'

/-- Whether a colon in front of the text stands between a key and its value. -/
def isValueEnd (inBrackets : Bool) (rest : List Char) : Bool :=
  atWordEnd rest || (inBrackets && rest.head?.any isFlowMark)

/-- Whether a character ends a run of a plain scalar; `rest` is what stands behind it. -/
def endsRun (inBrackets : Bool) (c : Char) (rest : List Char) : Bool :=
  isBlank c || isBreak c || (c = ':' && isValueEnd inBrackets rest) ||
    (inBrackets && (isFlowMark c || c = '?'))

/-- A run of a plain scalar, and what follows it. -/
def plainRun (inBrackets : Bool) : List Char → List Char × List Char
  | [] => ([], [])
  | c :: rest =>
      if endsRun inBrackets c rest then ([], c :: rest)
      else
        let later := plainRun inBrackets rest
        (c :: later.1, later.2)

theorem length_plainRun_le (inBrackets : Bool) (s : List Char) :
    (plainRun inBrackets s).2.length ≤ s.length := by
  induction s with
  | nil => simp [plainRun]
  | cons c rest ih =>
    unfold plainRun
    split
    · simp
    · simp
      omega

/-- White space between two runs: how it reads, the column behind it when it crosses lines, and
what follows. -/
structure Gap where
  text : List Char
  column : Option Nat
  rest : List Char

/-- The white space at the start of a text, if there is some. -/
def gap? (s : List Char) : Option Gap :=
  match s.dropWhile (· = ' ') with
  | [] => none
  | c :: after =>
      if isBreak c then
        (emptyLines (· = ' ') after).map fun lines =>
          ⟨fold c lines.1, some (columnAfter 0 (passed after lines.2)), lines.2⟩
      else if s.head? = some ' ' then some ⟨s.takeWhile (· = ' '), none, c :: after⟩
      else none

theorem length_gap {s : List Char} {g : Gap} (h : gap? s = some g) :
    g.rest.length < s.length := by
  unfold gap? at h
  have hd := (List.dropWhile_sublist (l := s) (· = ' ')).length_le
  split at h
  next => cases h
  next c after hs =>
    rw [hs] at hd
    simp at hd
    split at h
    · obtain ⟨lines, hl, rfl⟩ := Option.map_eq_some_iff.1 h
      have := length_emptyLines_le hl
      simp
      omega
    · split at h
      next hb =>
        cases h
        cases s with
        | nil => cases hb
        | cons d t =>
          simp only [List.head?_cons, Option.some.injEq] at hb
          subst hb
          have ht := (List.dropWhile_sublist (l := t) (· = ' ')).length_le
          simp only [List.dropWhile_cons, decide_true, if_true] at hs
          rw [hs] at ht
          simp at ht ⊢
          omega
      next => cases h

/-- A plain scalar and what follows it.  Its further lines start at the column `least` or behind
it, unless it stands in brackets. -/
def plainFrom (inBrackets : Bool) (least : Nat) (s : List Char) : List Char × List Char :=
  let run := plainRun inBrackets s
  match _h : gap? run.2 with
  | none => run
  | some gap =>
      if gap.rest.head? = some '#' ∨ (plainRun inBrackets gap.rest).1 = [] ∨
          (!inBrackets ∧ gap.column.any (· < least)) then run
      else
        let later := plainFrom inBrackets least gap.rest
        (run.1 ++ gap.text ++ later.1, later.2)
termination_by s.length
decreasing_by
  have h₁ := length_gap _h
  have h₂ : run.2.length ≤ s.length := length_plainRun_le inBrackets s
  omega

theorem length_plainFrom_le (inBrackets : Bool) (least : Nat) (s : List Char) :
    (plainFrom inBrackets least s).2.length ≤ (plainRun inBrackets s).2.length := by
  fun_induction plainFrom inBrackets least s
  case case1 => exact Nat.le_refl _
  case case2 => exact Nat.le_refl _
  case case3 run gap h _ later ih =>
    have h₁ := length_gap h
    have h₂ := length_plainRun_le inBrackets gap.rest
    simp only [later, run] at *
    omega

end TypeSketch.Bundled.Yaml
