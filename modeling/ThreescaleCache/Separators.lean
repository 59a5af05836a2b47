import Mathlib.Data.List.Basic

/-! Lists split at a separator. -/

namespace Separators
universe u

variable {α : Type u} [BEq α]

/-- One part more than there are separators. -/
theorem splitOn_length (sep : α) (l : List α) : (l.splitOn sep).length = l.count sep + 1 := by
  induction l with
  | nil => rfl
  | cons x l ih =>
    rw [List.splitOn_cons_eq_if_modifyHead, List.count_cons]
    split
    · rw [List.length_cons, ih]
    · rw [List.length_modifyHead, ih, Nat.add_zero]

/-- Without a separator between them two lists have one part less than they
have by themselves. -/
theorem splitOn_append_ne (sep : α) (l l' : List α) :
    (l ++ l').splitOn sep ≠ l.splitOn sep ++ l'.splitOn sep := by
  intro same
  have lengths := congrArg List.length same
  simp only [List.length_append, splitOn_length, List.count_append] at lengths
  omega

variable [LawfulBEq α]

/-- No part of a split list has a separator. -/
theorem sep_notMem_of_mem_splitOn {sep : α} {l part : List α} (member : part ∈ l.splitOn sep) : sep ∉ part := by
  induction l generalizing part with
  | nil =>
    rw [List.splitOn_nil, List.mem_singleton] at member
    subst member
    exact List.not_mem_nil
  | cons x l ih =>
    rw [List.splitOn_cons_eq_if_modifyHead] at member
    split at member
    · rcases List.mem_cons.mp member with rfl | later
      · exact List.not_mem_nil
      · exact ih later
    · rename_i other
      cases parts : l.splitOn sep with
      | nil => exact absurd parts (List.splitOn_ne_nil sep l)
      | cons first rest =>
        rw [parts, List.modifyHead_cons] at member
        rcases List.mem_cons.mp member with rfl | later
        · have clean := ih (parts ▸ List.mem_cons_self : first ∈ l.splitOn sep)
          simp only [List.mem_cons, not_or]
          exact ⟨fun same => other (beq_iff_eq.mpr same.symm), clean⟩
        · exact ih (parts ▸ List.mem_cons_of_mem first later)

/-- The first two parts of two joined lists are these lists exactly if neither
has a separator. -/
theorem splitOn_joined_iff {sep : α} {s a : List α} :
    (∃ rest, (s ++ sep :: a).splitOn sep = s :: a :: rest) ↔ sep ∉ s ∧ sep ∉ a := by
  constructor
  · rintro ⟨rest, parts⟩
    refine ⟨sep_notMem_of_mem_splitOn (parts ▸ List.mem_cons_self), ?_⟩
    exact sep_notMem_of_mem_splitOn (parts ▸ List.mem_cons_of_mem s List.mem_cons_self)
  · rintro ⟨cleanS, cleanA⟩
    refine ⟨[], ?_⟩
    rw [List.splitOn_append_cons_self, List.splitOn_eq_singleton cleanS, List.splitOn_eq_singleton cleanA]
    rfl

end Separators
