import Mathlib.Algebra.BigOperators.Group.List.Basic
import Mathlib.Algebra.Ring.Nat
import ThreescaleCache.Interaction.History

namespace Ledger
open Interaction

/-- What may still be taken from an account, and the epoch that it was last
filled in. -/
structure Allowance where
  left : Nat
  epoch : Nat

namespace Allowance

/-- An amount is taken. Before that the account is filled up if a later epoch
has begun, and only then. -/
inductive Takes (cap amount : Nat) : Allowance → Allowance → Prop
  | same {left epoch : Nat} (enough : amount ≤ left) : Takes cap amount ⟨left, epoch⟩ ⟨left - amount, epoch⟩
  | later {left epoch next : Nat} (begun : epoch < next) (enough : amount ≤ cap) :
      Takes cap amount ⟨left, epoch⟩ ⟨cap - amount, next⟩

variable {cap : Nat} {a b : Allowance}

theorem Takes.bound {amount : Nat} (takes : Takes cap amount a b) :
    amount + b.left + cap * a.epoch ≤ a.left + cap * b.epoch := by
  cases takes with
  | @same left epoch enough =>
    dsimp only
    omega
  | @later left epoch next begun enough =>
    have filled : cap * epoch + cap ≤ cap * next := Nat.mul_le_mul_left cap begun
    dsimp only
    omega

/-- What is taken over all is covered by what was there at the start and one
filling for each epoch in between. -/
theorem taken_bound {l : List (Nat × Allowance)} (applied : Applied (Takes cap) a l b) :
    (l.map Prod.fst).sum + b.left + cap * a.epoch ≤ a.left + cap * b.epoch := by
  induction applied with
  | start =>
    simp only [List.map_nil, List.sum_nil, Nat.zero_add, Nat.le_refl]
  | next _ step ih =>
    have bound := step.bound
    rw [List.map_append, List.sum_append, List.map_singleton, List.sum_singleton]
    omega

theorem Takes.epoch_le {amount : Nat} (takes : Takes cap amount a b) : a.epoch ≤ b.epoch := by
  cases takes with
  | same => exact Nat.le_refl _
  | later begun => exact Nat.le_of_lt begun

theorem Takes.exact {amount : Nat} (takes : Takes cap amount a b) (same : b.epoch = a.epoch) :
    amount + b.left = a.left := by
  cases takes with
  | @same left epoch enough =>
    dsimp only
    omega
  | later begun => exact absurd same (Nat.ne_of_gt begun)

theorem epoch_le {l : List (Nat × Allowance)} (applied : Applied (Takes cap) a l b) : a.epoch ≤ b.epoch :=
  applied.invariant (a.epoch ≤ ·.epoch) (Nat.le_refl _) fun _ _ _ takes before => before.trans takes.epoch_le

/-- As long as no later epoch has begun, what is taken and what is left come
to what was there. -/
theorem taken_exact {l : List (Nat × Allowance)} (applied : Applied (Takes cap) a l b)
    (same : b.epoch = a.epoch) : (l.map Prod.fst).sum + b.left = a.left := by
  induction applied with
  | start => simp only [List.map_nil, List.sum_nil, Nat.zero_add]
  | @next b' _ _ _ applied step ih =>
    have before := epoch_le applied
    have after := step.epoch_le
    have unchanged := ih (by omega)
    have taken := step.exact (by omega)
    rw [List.map_append, List.sum_append, List.map_singleton, List.sum_singleton]
    omega

end Allowance
end Ledger
