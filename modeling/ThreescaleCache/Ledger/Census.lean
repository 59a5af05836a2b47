import Mathlib.Data.Set.Card

namespace Ledger
universe u

variable {κ : Type u} {keys gone new lost : Set κ} {count : Int}

/-! A count that is kept beside a set of keys. -/

/-- There are finitely many keys, and the count is their number. -/
def Census (keys : Set κ) (count : Int) : Prop := keys.Finite ∧ count = keys.ncard

theorem census_empty : Census (∅ : Set κ) 0 := ⟨Set.finite_empty, by rw [Set.ncard_empty, Nat.cast_zero]⟩

theorem Census.nonneg (census : Census keys count) : 0 ≤ count := by
  rw [census.2]
  exact Int.natCast_nonneg _

/-- The size of a set after some keys are taken off it, others are put in and
some are lost. -/
theorem ncard_changed (gone lost : Set κ) (finite : keys.Finite) (added : new.Finite) :
    ((keys \ gone ∪ new) \ lost).ncard + ((keys \ gone ∪ new) ∩ lost).ncard + (keys \ gone ∩ new).ncard +
      (keys ∩ gone).ncard = keys.ncard + new.ncard := by
  have losing := Set.ncard_inter_add_ncard_sdiff_eq_ncard (keys \ gone ∪ new) lost (finite.sdiff.union added)
  have filling := Set.ncard_union_add_ncard_inter (keys \ gone) new finite.sdiff added
  have taking := Set.ncard_inter_add_ncard_sdiff_eq_ncard keys gone finite
  omega

/-- New keys are counted: none of them was there, nor any that went, and none
is lost. -/
theorem census_changed_iff (census : Census keys count) (added : new.Finite) :
    Census ((keys \ gone ∪ new) \ lost) (count + new.ncard) ↔
      keys ∩ gone = ∅ ∧ keys ∩ new = ∅ ∧ (keys ∪ new) ∩ lost = ∅ := by
  obtain ⟨finite, rfl⟩ := census
  have changed := ncard_changed gone lost finite added
  constructor
  · rintro ⟨_, counted⟩
    have kept : (keys ∩ gone).ncard = 0 := by omega
    have fresh : (keys \ gone ∩ new).ncard = 0 := by omega
    have stays : ((keys \ gone ∪ new) ∩ lost).ncard = 0 := by omega
    have kept := (Set.ncard_eq_zero (finite.subset Set.inter_subset_left)).mp kept
    have fresh := (Set.ncard_eq_zero (added.subset Set.inter_subset_right)).mp fresh
    have stays := (Set.ncard_eq_zero ((finite.sdiff.union added).subset Set.inter_subset_left)).mp stays
    have same := (Set.disjoint_iff_inter_eq_empty.mpr kept).sdiff_eq_left
    rw [same] at fresh stays
    exact ⟨kept, fresh, stays⟩
  · rintro ⟨kept, fresh, stays⟩
    refine ⟨(finite.sdiff.union added).sdiff, ?_⟩
    rw [(Set.disjoint_iff_inter_eq_empty.mpr kept).sdiff_eq_left,
      (Set.disjoint_iff_inter_eq_empty.mpr stays).sdiff_eq_left,
      Set.ncard_union_eq (Set.disjoint_iff_inter_eq_empty.mpr fresh) finite added, Nat.cast_add]

theorem census_lost_iff (census : Census keys count) : Census (keys \ lost) count ↔ keys ∩ lost = ∅ := by
  have changed : Census ((keys \ ∅ ∪ ∅) \ lost) (count + (∅ : Set κ).ncard) ↔
      keys ∩ ∅ = ∅ ∧ keys ∩ ∅ = ∅ ∧ (keys ∪ ∅) ∩ lost = ∅ := census_changed_iff census Set.finite_empty
  simpa using changed

/-- A key that is put in without being counted was there. -/
theorem census_insert_iff (census : Census keys count) (k : κ) : Census (insert k keys) count ↔ k ∈ keys := by
  obtain ⟨finite, rfl⟩ := census
  by_cases known : k ∈ keys
  · rw [Set.insert_eq_of_mem known]
    exact iff_of_true ⟨finite, rfl⟩ known
  · refine iff_of_false ?_ known
    rintro ⟨_, counted⟩
    rw [Set.ncard_insert_of_notMem known finite] at counted
    omega

/-- A key that is counted off was there. -/
theorem census_erase_iff (census : Census keys count) (k : κ) : Census (keys \ {k}) (count - 1) ↔ k ∈ keys := by
  obtain ⟨finite, rfl⟩ := census
  by_cases known : k ∈ keys
  · refine iff_of_true ⟨finite.sdiff, ?_⟩ known
    have one := Set.ncard_sdiff_singleton_add_one known finite
    omega
  · refine iff_of_false ?_ known
    rintro ⟨_, counted⟩
    rw [Set.sdiff_singleton_eq_self known] at counted
    omega

end Ledger
