import Mathlib.Data.Finset.Card
import Mathlib.Data.Nat.Find
import TypeSketch.Name.Unique
import TypeSketch.Proofs.Text.Digits

/-!
# Unique names are free

Main statements: `exists_first_free`, the name that is chosen is the first candidate that is not in
use, and `unique_notMem`.
-/

namespace TypeSketch.Name

/-- The candidates for a name: itself, then itself with 2, 3 and so on. -/
def candidate (name : String) : Nat → String
  | 0 => name
  | n + 1 => name ++ toString (n + 2)

theorem toString_injective : Function.Injective (toString : Nat → String) := by
  intro m n h
  have hdigits : Nat.toDigits 10 m = Nat.toDigits 10 n := by
    have hlist := congrArg String.toList h
    rwa [Nat.toString_eq_repr, Nat.toString_eq_repr, Nat.toList_repr, Nat.toList_repr] at hlist
  rw [← Text.natOfDigits_toDigits m, hdigits, Text.natOfDigits_toDigits]

theorem append_left_cancel {s t u : String} (h : s ++ t = s ++ u) : t = u := by
  have hlist := congrArg String.toList h
  rw [String.toList_append, String.toList_append] at hlist
  exact String.toList_inj.mp (List.append_cancel_left hlist)

/-- The candidates for a name are all different. -/
theorem candidate_injective (name : String) : Function.Injective (candidate name) := by
  have hne : ∀ n, name ≠ name ++ toString (n + 2) := by
    intro n h
    have hempty : "" = toString (n + 2) := append_left_cancel (String.append_empty.trans h)
    have hdigits := congrArg String.toList hempty
    rw [Nat.toString_eq_repr, Nat.toList_repr] at hdigits
    exact Nat.toDigits_ne_nil hdigits.symm
  intro m n h
  cases m with
  | zero =>
      cases n with
      | zero => rfl
      | succ n => exact absurd h (hne n)
  | succ m =>
      cases n with
      | zero => exact absurd h.symm (hne m)
      | succ n =>
          have hnum := toString_injective (append_left_cancel h)
          omega

/-- There are more candidates than names in use. -/
theorem exists_candidate_notMem (name : String) (used : List String) :
    ∃ n ≤ used.toFinset.card, candidate name n ∉ used := by
  by_contra hall
  push Not at hall
  have hsubset : (Finset.range (used.toFinset.card + 1)).image (candidate name) ⊆ used.toFinset := by
    intro c hc
    obtain ⟨n, hn, rfl⟩ := Finset.mem_image.mp hc
    exact List.mem_toFinset.mpr (hall n (Nat.lt_succ_iff.mp (Finset.mem_range.mp hn)))
  have hcard := Finset.card_le_card hsubset
  rw [Finset.card_image_of_injective _ (candidate_injective name), Finset.card_range] at hcard
  omega

namespace Search

variable {name : String} {used : List String} {s next : Search}

theorem result_of_round (h : s.round? name used = some next) :
    s.result name used = next.result name used := by
  rw [result]
  split
  next heq =>
    rw [h] at heq
    rw [Option.some.inj heq]
  next heq =>
    rw [h] at heq
    cases heq

theorem result_of_none (h : s.round? name used = none) : s.result name used = s.candidate := by
  rw [result]
  split
  next heq =>
    rw [h] at heq
    cases heq
  next => rfl

theorem round?_candidate {n : Nat} (h : Name.candidate name n ∈ used) :
    round? name used ⟨Name.candidate name n, n + 2⟩ = some ⟨Name.candidate name (n + 1), n + 3⟩ :=
  if_pos h

/-- Several rounds, if there are as many. -/
def rounds? (name : String) (used : List String) : Nat → Search → Option Search
  | 0, s => some s
  | n + 1, s => (rounds? name used n s).bind (round? name used)

/-- Rounds do not change where the search ends. -/
theorem result_of_rounds {n : Nat} (h : rounds? name used n s = some next) :
    s.result name used = next.result name used := by
  induction n generalizing next with
  | zero => rw [Option.some.inj h]
  | succ n ih =>
      obtain ⟨before, hbefore, hround⟩ := Option.bind_eq_some_iff.mp h
      exact (ih hbefore).trans (result_of_round hround)

/-- The search goes through the candidates as long as they are in use. -/
theorem rounds?_start {n : Nat} (h : ∀ m < n, Name.candidate name m ∈ used) :
    rounds? name used n (start name) = some ⟨Name.candidate name n, n + 2⟩ := by
  induction n with
  | zero => rfl
  | succ n ih =>
      have hbefore := ih fun m hm => h m (Nat.lt_succ_of_lt hm)
      rw [rounds?, hbefore, Option.bind_some]
      exact round?_candidate (h n (Nat.lt_succ_self n))

end Search

/-- The name that is chosen is the first candidate that is free. -/
theorem exists_first_free (name : String) (used : List String) :
    ∃ n ≤ used.toFinset.card, unique name used = candidate name n ∧ candidate name n ∉ used ∧
      ∀ m < n, candidate name m ∈ used := by
  obtain ⟨k, hk, hfree⟩ := exists_candidate_notMem name used
  have hex : ∃ n, candidate name n ∉ used := ⟨k, hfree⟩
  have hle : Nat.find hex ≤ used.toFinset.card := (Nat.find_min' hex hfree).trans hk
  have hused : ∀ m < Nat.find hex, candidate name m ∈ used := fun m hm =>
    not_not.mp (Nat.find_min hex hm)
  have hends : unique name used = candidate name (Nat.find hex) := by
    rw [unique, Search.result_of_rounds (Search.rounds?_start hused)]
    exact Search.result_of_none (if_neg (Nat.find_spec hex))
  exact ⟨Nat.find hex, hle, hends, Nat.find_spec hex, hused⟩

/-- The name that is chosen is not in use. -/
theorem unique_notMem (name : String) (used : List String) : unique name used ∉ used := by
  obtain ⟨n, -, hn, hfree, -⟩ := exists_first_free name used
  rwa [hn]

/-- The name that is chosen is a candidate. -/
theorem exists_unique_eq (name : String) (used : List String) :
    ∃ n, unique name used = candidate name n := by
  obtain ⟨n, -, hn, -⟩ := exists_first_free name used
  exact ⟨n, hn⟩

/-- A name that is free is kept. -/
theorem unique_of_notMem {name : String} {used : List String} (h : name ∉ used) :
    unique name used = name :=
  Search.result_of_none (if_neg h)

/-- A name is kept where none is in use. -/
theorem unique_nil (name : String) : unique name [] = name :=
  unique_of_notMem List.not_mem_nil

end TypeSketch.Name
