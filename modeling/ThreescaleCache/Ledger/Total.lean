import Mathlib.Algebra.BigOperators.Finprod

namespace Ledger
universe u v

variable {κ : Type u} [DecidableEq κ] {M : Type v} [AddCommMonoid M]

/-! The total of a function that is zero but for finitely many keys. -/

theorem support_update_subset (f : κ → M) (k : κ) (x : M) :
    Function.support (Function.update f k x) ⊆ insert k (Function.support f) := by
  intro other member
  by_cases same : other = k
  · exact Or.inl same
  · rw [Function.mem_support, Function.update_of_ne same] at member
    exact Or.inr member

/-- What is put under one key replaces what was there. -/
theorem total_update {f : κ → M} (finite : (Function.support f).Finite) (k : κ) (x : M) :
    finsum (Function.update f k x) + f k = finsum f + x := by
  have member : k ∈ insert k finite.toFinset := Finset.mem_insert_self k _
  have before : Function.support f ⊆ ↑(insert k finite.toFinset) := by
    rw [Finset.coe_insert, finite.coe_toFinset]
    exact Set.subset_insert k _
  have after : Function.support (Function.update f k x) ⊆ ↑(insert k finite.toFinset) := by
    rw [Finset.coe_insert, finite.coe_toFinset]
    exact support_update_subset f k x
  rw [finsum_eq_sum_of_support_subset f before, finsum_eq_sum_of_support_subset _ after,
    Finset.sum_update_of_mem member, ← Finset.add_sum_erase _ f member, Finset.sdiff_singleton_eq_erase]
  rw [add_assoc, add_comm (f k), add_comm x]

end Ledger
