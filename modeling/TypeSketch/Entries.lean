/-!
# Lists without repetition

`distinctOn key xs` keeps the first of the elements that share a key.  `settle` reads a list of
named entries the way a mapping is filled: a later entry of a name replaces the value and leaves
the name in its first place.  `settleOn` does so for names that count as one when a key of them
agrees.
-/

namespace TypeSketch

variable {α κ : Type} [DecidableEq κ]

/-- The elements of `xs`, without those whose key an earlier one has. -/
def distinctOn (key : α → κ) : List α → List α
  | [] => []
  | x :: xs => x :: (distinctOn key xs).filter fun y => key y ≠ key x

/-- One entry for each name up to `key`: its first mention with its last value. -/
def settleOn {β : Type} (key : β → κ) : List (β × α) → List (β × α)
  | [] => []
  | (k, v) :: rest =>
      let later := settleOn key rest
      let value := ((later.find? fun e => key e.1 = key k).map (·.2)).getD v
      (k, value) :: later.filter fun e => key e.1 ≠ key k

/-- One entry for each name: its first place and its last value. -/
def settle (entries : List (κ × α)) : List (κ × α) :=
  settleOn id entries

theorem mem_of_mem_distinctOn (key : α → κ) {x : α} :
    ∀ {xs : List α}, x ∈ distinctOn key xs → x ∈ xs
  | [], h => by simp [distinctOn] at h
  | y :: ys, h => by
      simp only [distinctOn, List.mem_cons, List.mem_filter] at h
      rcases h with rfl | ⟨h, _⟩
      · exact List.mem_cons_self
      · exact List.mem_cons_of_mem y (mem_of_mem_distinctOn key h)

theorem distinctOn_sublist (key : α → κ) : ∀ xs : List α, (distinctOn key xs).Sublist xs
  | [] => List.Sublist.slnil
  | x :: xs => (List.filter_sublist.trans (distinctOn_sublist key xs)).cons_cons x

end TypeSketch
