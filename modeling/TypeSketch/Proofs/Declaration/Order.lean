import Mathlib.Data.Finset.Max
import TypeSketch.Proofs.Declaration.Queue

/-!
# Dependency order is an order

Main statements:

* `perm_inOrder`: ordering declarations neither loses nor repeats one;
* `pairwise_dependencyOrder`: where dependencies are ranked, no declaration stands behind one that
  it is referred to by.
-/

namespace TypeSketch.Declaration

variable {ds : List Declaration}

/-- Ordering neither loses nor repeats a declaration. -/
theorem perm_dependencyOrder (ds : List Declaration) : (dependencyOrder ds).Perm ds := by
  rw [dependencyOrder_eq]
  fun_induction readyOrder ds with
  | case1 ds _ => exact .refl ds
  | case2 ds d hd ih =>
      exact (ih.cons d).trans (List.perm_cons_erase (List.mem_of_find?_eq_some hd)).symm

theorem perm_inOrder (order : DeclarationOrder) (ds : List Declaration) :
    (inOrder order ds).Perm ds := by
  cases order with
  | discovery => exact .refl ds
  | dependency => exact perm_dependencyOrder ds

section Ranked

variable {rank : String → Nat}

/-- A declaration of the highest rank is ready. -/
theorem exists_ready (hrank : ∀ e ∈ ds, ∀ n ∈ e.dependencies, rank n < rank e.name)
    (hne : ds ≠ []) : ∃ d, ds.find? (isReady ds) = some d := by
  obtain ⟨d, hd, hmax⟩ := ds.toFinset.exists_max_image (fun d => rank d.name)
    (List.toFinset_nonempty_iff ds |>.mpr hne)
  rw [← Option.isSome_iff_exists, List.find?_isSome]
  refine ⟨d, List.mem_toFinset.mp hd, isReady_iff.mpr fun e he => .inr fun hdep => ?_⟩
  have hlt := hrank e he d.name hdep
  have hle := hmax e (List.mem_toFinset.mpr he)
  omega

/-- Each declaration stands before those that it refers to. -/
theorem pairwise_dependencyOrder
    (hrank : ∀ e ∈ ds, ∀ n ∈ e.dependencies, rank n < rank e.name) :
    (dependencyOrder ds).Pairwise fun d e => d.name ∉ e.dependencies := by
  rw [dependencyOrder_eq]
  fun_induction readyOrder ds with
  | case1 ds hnone =>
      -- something would be ready
      by_cases hnil : ds = []
      · rw [hnil]
        exact .nil
      · obtain ⟨d, hd⟩ := exists_ready hrank hnil
        rw [hnone] at hd
        cases hd
  | case2 ds d hd ih =>
      refine .cons (fun e he hdep => ?_) (ih fun e he => hrank e (List.mem_of_mem_erase he))
      rw [← dependencyOrder_eq] at he
      have hmem := List.mem_of_mem_erase ((perm_dependencyOrder _).mem_iff.mp he)
      rcases isReady_iff.mp (List.find?_some hd) e hmem with hname | hfree
      · -- no declaration refers to itself
        have hlt := hrank e hmem d.name hdep
        rw [hname] at hlt
        exact Nat.lt_irrefl _ hlt
      · exact hfree hdep

end Ranked

end TypeSketch.Declaration
