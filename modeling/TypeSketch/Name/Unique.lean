import TypeSketch.Text.Digits

/-!
# Unique names

A name that is taken gets the least number from 2 on that makes it free.  The search tries one
candidate after the other and ends at the first that is free; only so many names in use have a
number that it has not tried yet.
-/

namespace TypeSketch.Name

/-- Where the search for a free name stands: the candidate, and the number for the next one. -/
structure Search where
  candidate : String
  counter : Nat

namespace Search

/-- The name itself is tried first. -/
def start (name : String) : Search := ⟨name, 2⟩

/-- A round of the search.  There is none behind a candidate that is free. -/
def round? (name : String) (used : List String) (s : Search) : Option Search :=
  if s.candidate ∈ used then some ⟨name ++ toString s.counter, s.counter + 1⟩ else none

/-- The number that stands behind as many characters as the name has. -/
def numberBehind (name other : String) : Nat :=
  Text.natOfDigits (other.toList.drop name.toList.length)

/-- How often a round can still find its candidate in use: now, and for the names in use with a
number that is not tried yet. -/
def ahead (name : String) (used : List String) (s : Search) : Nat :=
  used.countP (s.counter ≤ numberBehind name ·) + if s.candidate ∈ used then 1 else 0

theorem numberBehind_append (name : String) (n : Nat) :
    numberBehind name (name ++ toString n) = n := by
  rw [numberBehind, String.toList_append, List.drop_left, Nat.toString_eq_repr, Nat.toList_repr]
  exact Nat.ofDigitChars_ten_toDigits

/-- Counting what meets a condition counts what does not meet a stronger one as well. -/
theorem countP_lt_countP {α : Type} {p q : α → Bool} {l : List α} {a : α}
    (hpq : ∀ b, p b = true → q b = true) (ha : a ∈ l) (hp : p a = false) (hq : q a = true) :
    l.countP p < l.countP q := by
  induction l with
  | nil => cases ha
  | cons b l ih =>
      have hle : l.countP p ≤ l.countP q := List.countP_mono_left fun c _ => hpq c
      rcases List.mem_cons.mp ha with rfl | ha
      · rw [List.countP_cons_of_neg (by rw [hp]; decide), List.countP_cons_of_pos hq]
        omega
      · have hlt := ih ha
        rw [List.countP_cons, List.countP_cons]
        cases hb : p b with
        | false =>
            rw [if_neg (by decide)]
            omega
        | true =>
            rw [if_pos rfl, if_pos (hpq b hb)]
            omega

theorem ahead_lt_of_round {name : String} {used : List String} {s next : Search}
    (h : s.round? name used = some next) : next.ahead name used < s.ahead name used := by
  unfold round? at h
  split at h
  next hused =>
    cases h
    have hnext : ∀ u, decide (s.counter + 1 ≤ numberBehind name u) = true →
        decide (s.counter ≤ numberBehind name u) = true := by
      intro u hu
      exact decide_eq_true (Nat.le_of_succ_le (of_decide_eq_true hu))
    rw [ahead, ahead, if_pos hused]
    dsimp only
    split
    next hmem =>
      -- the new candidate is in use, and its number is not ahead any more
      have hlt := countP_lt_countP hnext hmem
        (decide_eq_false (by rw [numberBehind_append]; omega))
        (decide_eq_true (Nat.le_of_eq (numberBehind_append name s.counter).symm))
      omega
    next =>
      have hle := List.countP_mono_left (l := used) fun u _ => hnext u
      omega
  next => cases h

/-- The candidate at which the search ends. -/
def result (name : String) (used : List String) (s : Search) : String :=
  match _h : s.round? name used with
  | some next => next.result name used
  | none => s.candidate
termination_by s.ahead name used
decreasing_by exact ahead_lt_of_round _h

end Search

/-- The name, or the name with a number behind it, whichever is not in use. -/
def unique (name : String) (used : List String) : String :=
  (Search.start name).result name used

end TypeSketch.Name
