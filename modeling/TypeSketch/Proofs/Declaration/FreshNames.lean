import Mathlib.Order.Bounds.Basic
import TypeSketch.Proofs.Declaration.History

/-!
# The search for a free name

A name in use is tried again with the numbers from 2 on behind it.  A round of the search leads from
a candidate in use to the next one, and there are no more rounds than names in use: the candidates
are all different.  Main statement: `fresh_names`, the search ends at the least number that makes the
name free, and so the names that are allocated one after the other are all different.
-/

namespace TypeSketch

namespace Name

variable {name : String} {used : List String}

namespace Search

/-- The search ends after some rounds, at the candidate it has then. -/
structure EndsAt (name : String) (used : List String) (n : Nat) (found : String) : Prop where
  reached : rounds? name used n (start name) = some ⟨found, n + 2⟩
  last : round? name used ⟨found, n + 2⟩ = none

end Search

theorem exists_endsAt (name : String) (used : List String) :
    ∃ n ≤ used.toFinset.card, Search.EndsAt name used n (unique name used) := by
  obtain ⟨n, hn, hunique, hfree, hused⟩ := exists_first_free name used
  rw [hunique]
  exact ⟨n, hn, Search.rounds?_start hused, if_neg hfree⟩

/-- A name in use gets the least number from 2 on that makes it free. -/
theorem exists_isLeast (h : name ∈ used) :
    ∃ k, IsLeast {k : Nat | 2 ≤ k ∧ name ++ toString k ∉ used} k ∧
      unique name used = name ++ toString k := by
  obtain ⟨n, -, hunique, hfree, hused⟩ := exists_first_free name used
  cases n with
  | zero => exact absurd h hfree
  | succ n =>
      refine ⟨n + 2, ⟨⟨Nat.le_add_left 2 n, hfree⟩, ?_⟩, hunique⟩
      rintro k ⟨hk, hkfree⟩
      -- a smaller number belongs to an earlier candidate, which is in use
      obtain ⟨m, rfl⟩ := Nat.exists_eq_add_of_le' hk
      by_contra hlt
      exact hkfree (hused (m + 1) (by omega))

end Name

namespace Registry

/-- The names that are given when structures are allocated one after the other. -/
def allocated (r : Registry) : List (String × Shape) → List String
  | [] => []
  | (suggested, s) :: requests =>
      (r.allocate suggested s).1.toOption.toList ++
        (r.allocate suggested s).2.allocated requests

variable {r : Registry} {suggested n : String} {s : Shape} {requests : List (String × Shape)}

theorem mem_used_reserve {name : String} : n ∈ (r.reserve name).used ↔ n = name ∨ n ∈ r.used := by
  rw [reserve]
  split
  · rename_i hmem
    rw [List.contains_eq_mem, decide_eq_true_eq] at hmem
    exact ⟨.inr, fun h => h.elim (fun heq => heq ▸ hmem) id⟩
  · exact List.mem_cons

/-- An allocation takes the free name, whether or not it declares something. -/
theorem mem_used_allocate :
    n ∈ (r.allocate suggested s).2.used ↔ n = r.freeName suggested ∨ n ∈ r.used := by
  cases h : (r.allocate suggested s).1 with
  | ok name =>
      obtain ⟨rfl, hdeclared⟩ := allocate_ok h
      rw [hdeclared]
      exact List.mem_cons
  | error fault =>
      rw [allocate_error h]
      exact mem_used_reserve

theorem eq_freeName_of_mem_toList (h : n ∈ (r.allocate suggested s).1.toOption.toList) :
    n = r.freeName suggested := by
  cases hresult : (r.allocate suggested s).1 with
  | ok name =>
      rw [hresult] at h
      rw [List.mem_singleton.mp h]
      exact (allocate_ok hresult).1
  | error fault =>
      rw [hresult] at h
      cases h

/-- No name is given that was in use. -/
theorem notMem_used_of_mem_allocated (h : n ∈ r.allocated requests) : n ∉ r.used := by
  induction requests generalizing r with
  | nil => cases h
  | cons request requests ih =>
      obtain ⟨suggested, s⟩ := request
      rw [allocated, List.mem_append] at h
      rcases h with h | h
      · rw [eq_freeName_of_mem_toList h]
        exact r.freeName_notMem suggested
      · exact fun hused => ih h (mem_used_allocate.mpr (.inr hused))

theorem nodup_allocated (r : Registry) (requests : List (String × Shape)) :
    (r.allocated requests).Nodup := by
  induction requests generalizing r with
  | nil => exact List.nodup_nil
  | cons request requests ih =>
      obtain ⟨suggested, s⟩ := request
      rw [allocated]
      refine List.nodup_append.mpr ⟨?_, ih _, ?_⟩
      · cases (r.allocate suggested s).1 with
        | ok name => exact List.nodup_singleton name
        | error fault => exact List.nodup_nil
      · -- the name that is given first is in use from then on
        rintro n hn m hm rfl
        refine notMem_used_of_mem_allocated hm (mem_used_allocate.mpr (.inl ?_))
        exact eq_freeName_of_mem_toList hn

/-- Every shape without a hole gets a name. -/
theorem length_allocated (h : ∀ q ∈ requests, q.2.isWhole = true) :
    (r.allocated requests).length = requests.length := by
  induction requests generalizing r with
  | nil => rfl
  | cons request requests ih =>
      obtain ⟨suggested, s⟩ := request
      obtain ⟨hs, hrequests⟩ := List.forall_mem_cons.mp h
      have hgiven : (r.allocate suggested s).1 = .ok (r.freeName suggested) := by
        rw [allocate, if_pos hs]
      rw [allocated, List.length_append, ih hrequests, hgiven, List.length_cons, Nat.add_comm]
      rfl

end Registry

open Name (unique Search)

/-- The search for a free name ends, after at most as many rounds as there are names in use.  It
gives the name itself if that is free, and otherwise the name with the least number from 2 on that
makes it free.  Whatever names are asked for, the names that are allocated differ from each other
and from those in use before. -/
theorem fresh_names :
    (∀ (name : String) (used : List String),
      (∃ n ≤ used.toFinset.card, Search.EndsAt name used n (unique name used)) ∧
      unique name used ∉ used ∧
      (name ∉ used → unique name used = name) ∧
      (name ∈ used → ∃ k, IsLeast {k : Nat | 2 ≤ k ∧ name ++ toString k ∉ used} k ∧
        unique name used = name ++ toString k)) ∧
    ∀ (r : Registry) (requests : List (String × Shape)),
      (r.allocated requests).Nodup ∧ (∀ name ∈ r.allocated requests, name ∉ r.used) ∧
      ((∀ q ∈ requests, q.2.isWhole = true) →
        (r.allocated requests).length = requests.length) := by
  refine ⟨fun name used => ?_, fun r requests => ?_⟩
  · exact ⟨Name.exists_endsAt name used, Name.unique_notMem name used, Name.unique_of_notMem,
      Name.exists_isLeast⟩
  · exact ⟨r.nodup_allocated requests, fun _ => Registry.notMem_used_of_mem_allocated,
      Registry.length_allocated⟩

/-- Names that end in digits get a number as well, and gaps are filled. -/
def numberedNames : List String := ["id2", "id22", "id24", "id"]

/-- Requests for a name in use and for those that stand for it then. -/
def numberedRequests : List (String × Shape) :=
  [("id2", .null), ("id", .object []), ("id23", .hole), ("id2", .array .null), ("fresh", .null)]

theorem fresh_names_numbered :
    ("id2" ∈ numberedNames ∧ unique "id2" numberedNames = "id23" ∧
      ∃ k, IsLeast {k : Nat | 2 ≤ k ∧ "id2" ++ toString k ∉ numberedNames} k ∧
        unique "id2" numberedNames = "id2" ++ toString k) ∧
    ("id3" ∉ numberedNames ∧ unique "id3" numberedNames = "id3") ∧
    ({ used := numberedNames : Registry }.allocated numberedRequests =
        ["id23", "id3", "id25", "fresh"] ∧
      ["id23", "id3", "id25", "fresh"].Nodup ∧
      (∀ q ∈ [("id", Shape.null), ("id", .null)], q.2.isWhole = true) ∧
      ({ used := numberedNames : Registry }.allocated
        [("id", Shape.null), ("id", .null)]).length = 2) := by
  have hused : "id2" ∈ numberedNames := by decide
  have hfree : "id3" ∉ numberedNames := by decide
  have hgiven : { used := numberedNames : Registry }.allocated numberedRequests =
      ["id23", "id3", "id25", "fresh"] := by decide +kernel
  have hwhole : ∀ q ∈ [("id", Shape.null), ("id", .null)], q.2.isWhole = true := by decide
  obtain ⟨hnames, hallocated⟩ := fresh_names
  refine ⟨⟨hused, by decide +kernel, (hnames "id2" numberedNames).2.2.2 hused⟩,
    ⟨hfree, (hnames "id3" numberedNames).2.2.1 hfree⟩, hgiven, ?_, hwhole, ?_⟩
  · exact hgiven ▸ (hallocated { used := numberedNames } numberedRequests).1
  · exact (hallocated { used := numberedNames } [("id", .null), ("id", .null)]).2.2 hwhole

end TypeSketch
