/-!
# Markup

Messages may hold tags in square brackets, which set the style of what follows and are not shown.
A backslash in front of a tag makes it plain text, and two backslashes there are one.  `escape`
puts backslashes in front of the tags of a text that is to be shown as it is.
-/

namespace TypeSketch.Bundled.Terminal.Markup

/-- What a tag may start with. -/
def beginsTag (c : Char) : Bool :=
  ('a' ≤ c && c ≤ 'z') || c = '#' || c = '/' || c = '@'

/-- The tag at the start of a text, brackets included. -/
def tagAt? : List Char → Option (List Char)
  | '[' :: c :: rest =>
      let inner := rest.takeWhile fun d => d ≠ ']' && d ≠ '['
      if beginsTag c ∧ (rest.drop inner.length).head? = some ']' then
        some ('[' :: c :: (inner ++ [']']))
      else none
  | _ => none

theorem length_pos_of_tagAt {s tag : List Char} (h : tagAt? s = some tag) :
    0 < tag.length ∧ 0 < s.length := by
  unfold tagAt? at h
  split at h
  · dsimp only at h
    split at h
    · cases h
      simp
    · cases h
  · cases h

/-- A tag with the backslashes in front of it, and what follows it. -/
structure Tag where
  slashes : Nat
  text : List Char
  rest : List Char

/-- The tag that the text starts with, up to backslashes. -/
def split? (s : List Char) : Option Tag :=
  let behind := s.dropWhile (· = '\\')
  (tagAt? behind).map fun tag => ⟨s.length - behind.length, tag, behind.drop tag.length⟩

theorem length_split {s : List Char} {t : Tag} (h : split? s = some t) :
    t.rest.length < s.length := by
  obtain ⟨tag, ht, rfl⟩ := Option.map_eq_some_iff.1 h
  have h₁ := length_pos_of_tagAt ht
  have h₂ := (List.dropWhile_sublist (l := s) (· = '\\')).length_le
  simp only [List.length_drop]
  omega

/-- Plain text, where a backslash in front of a bracket is dropped. -/
def plain : List Char → List Char
  | '\\' :: '[' :: rest => '[' :: plain rest
  | c :: rest => c :: plain rest
  | [] => []

/-- The text that is shown.  `before` is the plain text behind the last tag, last character
first. -/
def shownFrom (before : List Char) (s : List Char) : List Char :=
  match _h : s with
  | [] => plain before.reverse
  | c :: rest =>
      match _ht : split? (c :: rest) with
      | none => shownFrom (c :: before) rest
      | some tag =>
          plain before.reverse ++ List.replicate (tag.slashes / 2) '\\' ++
            (if tag.slashes % 2 = 1 then tag.text else []) ++ shownFrom [] tag.rest
termination_by s.length
decreasing_by
  · simp
  · exact length_split _ht

/-- The text that is shown for a message with tags. -/
def shown (s : List Char) : List Char :=
  shownFrom [] s

/-- The text with its tags made plain. -/
def escapeTags (s : List Char) : List Char :=
  match _h : s with
  | [] => []
  | c :: rest =>
      match _ht : split? (c :: rest) with
      | none => c :: escapeTags rest
      | some tag =>
          List.replicate (2 * tag.slashes + 1) '\\' ++ tag.text ++ escapeTags tag.rest
termination_by s.length
decreasing_by
  · simp
  · exact length_split _ht

/-- The markup of a text that another tag may follow: a single backslash at the end is doubled. -/
def escape (s : List Char) : List Char :=
  let marked := escapeTags s
  if ['\\'].isSuffixOf marked && !(['\\', '\\'].isSuffixOf marked) then marked ++ ['\\'] else marked

end TypeSketch.Bundled.Terminal.Markup
