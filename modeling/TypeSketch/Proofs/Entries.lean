import TypeSketch.Entries

/-!
# What deduplication, settling and sorting keep

`distinctOn` keeps every key exactly once, and `settle` keeps every name exactly once, in first
place and with the last value.  Sorting forgets nothing but the order.
-/

namespace TypeSketch

variable {α β κ : Type} [DecidableEq κ]

theorem exists_mem_distinctOn (key : α → κ) {x : α} :
    ∀ {xs : List α}, x ∈ xs → ∃ y ∈ distinctOn key xs, key y = key x
  | y :: ys, h => by
      by_cases hxy : key x = key y
      · exact ⟨y, List.mem_cons_self, hxy.symm⟩
      · rcases List.mem_cons.mp h with rfl | h
        · exact absurd rfl hxy
        · obtain ⟨z, hz, hzx⟩ := exists_mem_distinctOn key h
          refine ⟨z, List.mem_cons_of_mem y (List.mem_filter.mpr ⟨hz, ?_⟩), hzx⟩
          exact decide_eq_true (hzx ▸ hxy)

/-- Deduplication loses no key. -/
theorem mem_map_distinctOn (key : α → κ) {xs : List α} {k : κ} :
    k ∈ (distinctOn key xs).map key ↔ k ∈ xs.map key := by
  constructor
  · intro h
    obtain ⟨x, hx, rfl⟩ := List.mem_map.mp h
    exact List.mem_map_of_mem (mem_of_mem_distinctOn key hx)
  · intro h
    obtain ⟨x, hx, rfl⟩ := List.mem_map.mp h
    obtain ⟨y, hy, hyx⟩ := exists_mem_distinctOn key hx
    exact List.mem_map.mpr ⟨y, hy, hyx⟩

/-- Deduplication leaves each key once. -/
theorem nodup_map_distinctOn (key : α → κ) : ∀ xs : List α, ((distinctOn key xs).map key).Nodup
  | [] => List.nodup_nil
  | x :: xs => by
      rw [distinctOn, List.map_cons, List.nodup_cons]
      constructor
      · intro h
        obtain ⟨y, hy, hyx⟩ := List.mem_map.mp h
        exact of_decide_eq_true (List.mem_filter.mp hy).2 hyx
      · exact (nodup_map_distinctOn key xs).sublist (List.filter_sublist.map key)

/-- Where no key is repeated, deduplication changes nothing. -/
theorem distinctOn_eq_self (key : α → κ) :
    ∀ {xs : List α}, (xs.map key).Nodup → distinctOn key xs = xs
  | [], _ => rfl
  | x :: xs, h => by
      rw [List.map_cons, List.nodup_cons] at h
      rw [distinctOn, distinctOn_eq_self key h.2, List.filter_eq_self.mpr]
      intro y hy
      exact decide_eq_true fun hyx => h.1 (List.mem_map.mpr ⟨y, hy, hyx⟩)

/-- Without a key that tells more apart, deduplication is a matter of the elements alone. -/
theorem distinctOn_congr {γ : Type} [DecidableEq γ] {key : α → κ} {key' : α → γ} :
    ∀ {xs : List α}, (∀ x ∈ xs, ∀ y ∈ xs, key x = key y ↔ key' x = key' y) →
      distinctOn key xs = distinctOn key' xs
  | [], _ => rfl
  | x :: xs, h => by
      rw [distinctOn, distinctOn, distinctOn_congr fun y hy z hz =>
        h y (List.mem_cons_of_mem x hy) z (List.mem_cons_of_mem x hz)]
      congr 1
      apply List.filter_congr
      intro y hy
      have hy := mem_of_mem_distinctOn key' hy
      rw [decide_eq_decide]
      exact not_congr (h y (List.mem_cons_of_mem x hy) x List.mem_cons_self)

/-- Deduplication commutes with a map that keeps the keys. -/
theorem distinctOn_map {key : β → κ} {key' : α → κ} {g : α → β} :
    ∀ {xs : List α}, (∀ x ∈ xs, key (g x) = key' x) →
      distinctOn key (xs.map g) = (distinctOn key' xs).map g
  | [], _ => rfl
  | x :: xs, h => by
      rw [List.map_cons, distinctOn, distinctOn, List.map_cons,
        distinctOn_map fun y hy => h y (List.mem_cons_of_mem x hy), List.filter_map]
      congr 2
      apply List.filter_congr
      intro y hy
      have hy := mem_of_mem_distinctOn key' hy
      rw [Function.comp_apply, h y (List.mem_cons_of_mem x hy), h x List.mem_cons_self]

section Identity

variable {xs ys : List κ}

@[simp]
theorem mem_distinctOn_id {x : κ} : x ∈ distinctOn id xs ↔ x ∈ xs := by
  have h : x ∈ (distinctOn id xs).map id ↔ x ∈ xs.map id := mem_map_distinctOn id
  rwa [List.map_id, List.map_id] at h

theorem nodup_distinctOn_id (xs : List κ) : (distinctOn id xs).Nodup := by
  simpa using nodup_map_distinctOn id xs

theorem perm_distinctOn_id (h : ∀ x, x ∈ xs ↔ x ∈ ys) :
    (distinctOn id xs).Perm (distinctOn id ys) := by
  rw [List.perm_ext_iff_of_nodup (nodup_distinctOn_id xs) (nodup_distinctOn_id ys)]
  intro x
  rw [mem_distinctOn_id, mem_distinctOn_id]
  exact h x

end Identity

section Sorting

variable {le : α → α → Bool} (htrans : ∀ a b c, le a b = true → le b c = true → le a c = true)
  (htotal : ∀ a b, (le a b || le b a) = true)
include htrans htotal

/-- Sorting forgets the order, if equally placed entries are equal. -/
theorem mergeSort_eq_of_perm {xs ys : List α} (h : xs.Perm ys)
    (hanti : ∀ x ∈ xs, ∀ y ∈ ys, le x y = true → le y x = true → x = y) :
    xs.mergeSort le = ys.mergeSort le := by
  have hperm : (xs.mergeSort le).Perm (ys.mergeSort le) :=
    ((List.mergeSort_perm xs le).trans h).trans (List.mergeSort_perm ys le).symm
  apply hperm.eq_of_pairwise _ (List.pairwise_mergeSort htrans htotal xs)
    (List.pairwise_mergeSort htrans htotal ys)
  intro x y hx hy
  exact hanti x (List.mem_mergeSort.mp hx) y (List.mem_mergeSort.mp hy)

end Sorting

section Lookup

theorem mem_of_lookup_eq_some {k : κ} {v : α} {entries : List (κ × α)}
    (h : entries.lookup k = some v) : (k, v) ∈ entries := by
  obtain ⟨xs, ys, rfl, -⟩ := List.lookup_eq_some_iff.mp h
  exact List.mem_append_right xs List.mem_cons_self

theorem lookup_filter_ne {k l : κ} (h : l ≠ k) : ∀ entries : List (κ × α),
    (entries.filter fun e => e.1 ≠ k).lookup l = entries.lookup l
  | [] => rfl
  | (k', v) :: rest => by
      have ih := lookup_filter_ne h rest
      rw [List.filter_cons, List.lookup_cons]
      split
      · rw [List.lookup_cons, ih]
      · -- only an entry of `k` is left out, and `l` is not `k`
        rename_i hleft
        have hk : k' = k := by simpa using hleft
        have hne : (l == k') = false := beq_eq_false_iff_ne.mpr (hk ▸ h)
        rw [ih, hne]

theorem lookup_eq_none_iff {k : κ} {entries : List (κ × α)} :
    entries.lookup k = none ↔ k ∉ entries.map (·.1) := by
  rw [List.lookup_eq_none_iff]
  simp only [bne_iff_ne, List.mem_map, not_exists, not_and]
  exact ⟨fun h e he hk => h e he hk.symm, fun h e he hk => h e he hk.symm⟩

end Lookup

section Settle

theorem settle_cons (k : κ) (v : α) (rest : List (κ × α)) :
    settle ((k, v) :: rest) =
      (k, (((settle rest).find? fun e => e.1 = k).map (·.2)).getD v) ::
        (settle rest).filter fun e => e.1 ≠ k := rfl

theorem mem_of_mem_settle {e : κ × α} : ∀ {entries : List (κ × α)}, e ∈ settle entries →
    e ∈ entries
  | (k, v) :: rest, h => by
      rw [settle_cons] at h
      rcases List.mem_cons.mp h with rfl | h
      · cases hfind : (settle rest).find? fun e => e.1 = k with
        | none => exact List.mem_cons_self
        | some e =>
            have hmem := mem_of_mem_settle (List.mem_of_find?_eq_some hfind)
            have hname : e.1 = k := by simpa using List.find?_some hfind
            rw [Option.map_some, Option.getD_some, ← hname]
            exact List.mem_cons_of_mem _ hmem
      · exact List.mem_cons_of_mem _ (mem_of_mem_settle (List.mem_filter.mp h).1)

/-- Settling keeps each name once, in its first place. -/
theorem keys_settle : ∀ entries : List (κ × α),
    (settle entries).map (·.1) = distinctOn id (entries.map (·.1))
  | [] => rfl
  | (k, v) :: rest => by
      rw [settle_cons, List.map_cons, List.map_cons, distinctOn, ← keys_settle rest, List.filter_map]
      rfl

theorem nodup_keys_settle (entries : List (κ × α)) : ((settle entries).map (·.1)).Nodup := by
  rw [keys_settle]
  exact nodup_distinctOn_id _

/-- Where no name is repeated there is nothing to settle. -/
theorem settle_eq_self : ∀ {entries : List (κ × α)}, (entries.map (·.1)).Nodup →
    settle entries = entries
  | [], _ => rfl
  | (k, v) :: rest, h => by
      rw [List.map_cons, List.nodup_cons] at h
      have hne : ∀ e ∈ rest, e.1 ≠ k := fun e he hk =>
        h.1 (List.mem_map.mpr ⟨e, he, hk⟩)
      have hfind : (rest.find? fun e => e.1 = k) = none := by
        rw [List.find?_eq_none]
        exact fun e he hk => hne e he (of_decide_eq_true hk)
      rw [settle_cons, settle_eq_self h.2, hfind, List.filter_eq_self.mpr]
      · rfl
      · exact fun e he => decide_eq_true (hne e he)

/-- Values may be changed before or after settling. -/
theorem settle_map (g : κ → α → β) : ∀ entries : List (κ × α),
    settle (entries.map fun e => (e.1, g e.1 e.2)) = (settle entries).map fun e => (e.1, g e.1 e.2)
  | [] => rfl
  | (k, v) :: rest => by
      rw [List.map_cons, settle_cons, settle_map g rest, settle_cons, List.map_cons, List.filter_map,
        List.find?_map]
      congr 2
      cases hfind : (settle rest).find? fun e => e.1 = k with
      | none =>
          have hnone : ((settle rest).find?
              ((fun e => decide (e.1 = k)) ∘ fun e => (e.1, g e.1 e.2))) = none := hfind
          rw [hnone]
          rfl
      | some e =>
          have hsome : ((settle rest).find?
              ((fun e => decide (e.1 = k)) ∘ fun e => (e.1, g e.1 e.2))) = some e := hfind
          have hname : e.1 = k := by simpa using List.find?_some hfind
          rw [hsome]
          simp [hname]

end Settle

end TypeSketch
