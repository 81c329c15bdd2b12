/-!
# Lines of YAML

Line breaks, the marks that stand between documents, and how the breaks inside a scalar are read:
one break is a space, and of several the first is dropped.
-/

namespace TypeSketch.Bundled.Yaml

/-- The characters that a YAML text may have. -/
def isAllowed (c : Char) : Bool :=
  let n := c.toNat
  n = 0x09 || n = 0x0A || n = 0x0D || (0x20 ≤ n && n ≤ 0x7E) || n = 0x85 ||
    (0xA0 ≤ n && n ≤ 0xFFFD) || 0x10000 ≤ n

def isBreak (c : Char) : Bool :=
  c = '\n' || c = '\x85' || c = '\u2028' || c = '\u2029'

def isBlank (c : Char) : Bool :=
  c = ' ' || c = '\t'

/-- Whether the text ends here or goes on with white space. -/
def atWordEnd : List Char → Bool
  | [] => true
  | c :: _ => isBlank c || isBreak c

/-- Whether the line is a mark between documents. -/
def isDocumentMark : List Char → Bool
  | '-' :: '-' :: '-' :: rest => atWordEnd rest
  | '.' :: '.' :: '.' :: rest => atWordEnd rest
  | _ => false

/-- A line break as a scalar keeps it. -/
def keptBreak (c : Char) : Char :=
  if c = '\u2028' ∨ c = '\u2029' then c else '\n'

/-- The line breaks from the start of a line up to the next character that is neither a break nor
blank, and the text from there on.  A mark between documents is not passed. -/
def emptyLines (blank : Char → Bool) (s : List Char) : Option (List Char × List Char) :=
  if isDocumentMark s then none
  else
    match _h : s.dropWhile blank with
    | [] => some ([], [])
    | c :: rest =>
        if isBreak c then
          (emptyLines blank rest).map fun later => (keptBreak c :: later.1, later.2)
        else some ([], c :: rest)
termination_by s.length
decreasing_by
  have h := (List.dropWhile_sublist (l := s) blank).length_le
  rw [_h] at h
  simp at h
  omega

theorem length_emptyLines_le {blank : Char → Bool} {s breaks rest : List Char}
    (h : emptyLines blank s = some (breaks, rest)) : rest.length ≤ s.length := by
  fun_induction emptyLines blank s generalizing breaks
  case case1 => cases h
  case case2 => cases h; simp
  case case3 s _ c after hd _ ih =>
    obtain ⟨later, hl, he⟩ := Option.map_eq_some_iff.1 h
    have h₁ := (List.dropWhile_sublist (l := s) blank).length_le
    cases he
    have h₂ := ih hl
    rw [hd] at h₁
    simp at h₁
    omega
  case case4 s _ c after hd _ =>
    cases h
    rw [← hd]
    exact (List.dropWhile_sublist (l := s) blank).length_le

/-- What a line break and the breaks behind it read as. -/
def fold (first : Char) (more : List Char) : List Char :=
  if keptBreak first ≠ '\n' then first :: more
  else if more = [] then [' ']
  else more

/-- The part of a text in front of what is left of it. -/
def passed (s rest : List Char) : List Char :=
  s.take (s.length - rest.length)

/-- The column behind some characters that start at a column. -/
def columnAfter (column : Nat) (chars : List Char) : Nat :=
  if chars.any isBreak then (chars.reverse.takeWhile fun c => !isBreak c).length
  else column + chars.length

end TypeSketch.Bundled.Yaml
