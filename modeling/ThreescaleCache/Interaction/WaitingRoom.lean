import Mathlib.Logic.Function.Basic
import Mathlib.Data.List.Nodup

namespace Interaction
universe u v w

/-- Parties `ι` with tickets `ω` that wait for each other: the party `j` has
still to wake the tickets of `pending j`, in this order; `waits i` says that
party `i` has queued up, and `woken i` how often it was woken. The queue of a
party serves those with the same key. -/
structure WaitingRoom {ι : Type u} {κ : Type v} {ω : Type w} (key : ι → κ) (ticket : ι → Option ω)
    (pending : ι → List ω) (waits : ι → Prop) (woken : ι → Nat) : Prop where
  nodup : ∀ j, (pending j).Nodup
  queued : ∀ j w, w ∈ pending j → ∃ i, key i = key j ∧ waits i ∧ ticket i = some w
  served : ∀ i, waits i → ∃ w, ticket i = some w ∧
    (woken i = 1 ∨ (woken i = 0 ∧ ∃ j, key j = key i ∧ w ∈ pending j))
  asleep : ∀ i, ¬waits i → woken i = 0
  unwoken : ∀ i j w, w ∈ pending j → ticket i = some w → woken i = 0

namespace WaitingRoom
variable {ι : Type u} {κ : Type v} {ω : Type w} [DecidableEq ι] {key : ι → κ}
  {ticket : ι → Option ω} {pending : ι → List ω} {waits : ι → Prop} {woken : ι → Nat}

omit [DecidableEq ι] in
theorem congr {pending' : ι → List ω} {waits' : ι → Prop} {woken' : ι → Nat}
    (room : WaitingRoom key ticket pending waits woken) (p : ∀ j, pending' j = pending j)
    (w : ∀ j, waits' j ↔ waits j) (n : ∀ j, woken' j = woken j) :
    WaitingRoom key ticket pending' waits' woken' := by
  rw [funext p, funext fun j => propext (w j), funext n]
  exact room

/-- The party `i` queues up with `j`. -/
theorem add (room : WaitingRoom key ticket pending waits woken)
    (distinct : ∀ i j w, ticket i = some w → ticket j = some w → i = j) {i j : ι} {w : ω}
    (own : ticket i = some w) (sameKey : key j = key i) (new : ¬waits i) :
    WaitingRoom key ticket (Function.update pending j (pending j ++ [w]))
      (Function.update waits i True) woken := by
  have fresh : ∀ k, w ∉ pending k := by
    intro k member
    obtain ⟨i', _, waits', own'⟩ := room.queued k w member
    rw [distinct i' i w own' own] at waits'
    exact new waits'
  have mem_iff : ∀ k w', w' ∈ Function.update pending j (pending j ++ [w]) k ↔
      w' ∈ pending k ∨ (k = j ∧ w' = w) := by
    intro k w'
    by_cases same : k = j
    · subst same
      simp
    · simp [same]
  have waits_iff : ∀ k, Function.update waits i True k ↔ waits k ∨ k = i := by
    intro k
    by_cases same : k = i
    · subst same
      simp
    · simp [same]
  refine ⟨?_, ?_, ?_, ?_, ?_⟩
  · intro k
    by_cases same : k = j
    · subst same
      rw [Function.update_self]
      refine List.Nodup.append (room.nodup k) (List.nodup_singleton w) ?_
      intro w' old new'
      cases List.mem_singleton.mp new'
      exact fresh k old
    · rw [Function.update_of_ne same]
      exact room.nodup k
  · intro k w' member
    rcases (mem_iff k w').mp member with old | ⟨rfl, rfl⟩
    · obtain ⟨i', same, waits', own'⟩ := room.queued k w' old
      exact ⟨i', same, (waits_iff i').mpr (Or.inl waits'), own'⟩
    · exact ⟨i, sameKey.symm, (waits_iff i).mpr (Or.inr rfl), own⟩
  · intro k waiting
    rcases (waits_iff k).mp waiting with old | rfl
    · obtain ⟨w', own', done | ⟨none_, j', same, member⟩⟩ := room.served k old
      · exact ⟨w', own', Or.inl done⟩
      · exact ⟨w', own', Or.inr ⟨none_, j', same, (mem_iff j' w').mpr (Or.inl member)⟩⟩
    · exact ⟨w, own, Or.inr ⟨room.asleep k new, j, sameKey, (mem_iff j w).mpr (Or.inr ⟨rfl, rfl⟩)⟩⟩
  · intro k not
    exact room.asleep k fun waits' => not ((waits_iff k).mpr (Or.inl waits'))
  · intro k j' w' member own'
    rcases (mem_iff j' w').mp member with old | ⟨rfl, rfl⟩
    · exact room.unwoken k j' w' old own'
    · rw [distinct k i w' own' own]
      exact room.asleep i new

/-- The party `j` wakes the first ticket of its queue. -/
theorem wake [DecidableEq ω] (room : WaitingRoom key ticket pending waits woken)
    (distinct : ∀ i j w, ticket i = some w → ticket j = some w → i = j)
    (once : ∀ j k w, w ∈ pending j → w ∈ pending k → j = k) {j : ι} {w : ω} {rest : List ω}
    (first : pending j = w :: rest) :
    WaitingRoom key ticket (Function.update pending j rest) waits
      (fun i => woken i + if ticket i = some w then 1 else 0) := by
  have nodup := room.nodup j
  rw [first, List.nodup_cons] at nodup
  have here : w ∈ pending j := by rw [first]; exact List.mem_cons_self
  have mem_iff : ∀ k w', w' ∈ Function.update pending j rest k ↔ w' ∈ pending k ∧ w' ≠ w := by
    intro k w'
    by_cases same : k = j
    · subst same
      rw [Function.update_self, first, List.mem_cons]
      constructor
      · intro member
        refine ⟨Or.inr member, ?_⟩
        intro same
        subst same
        exact nodup.1 member
      · intro fact
        obtain ⟨rfl | member, different⟩ := fact
        · exact absurd rfl different
        · exact member
    · rw [Function.update_of_ne same]
      refine ⟨fun member => ⟨member, ?_⟩, And.left⟩
      intro same
      subst same
      exact same (once k j w' member here)
  refine ⟨?_, ?_, ?_, ?_, ?_⟩
  · intro k
    by_cases same : k = j
    · subst same
      rw [Function.update_self]
      exact nodup.2
    · rw [Function.update_of_ne same]
      exact room.nodup k
  · exact fun k w' member => room.queued k w' ((mem_iff k w').mp member).1
  · intro i waiting
    obtain ⟨w', own, state⟩ := room.served i waiting
    refine ⟨w', own, ?_⟩
    by_cases mine : w' = w
    · subst mine
      left
      simp [own, room.unwoken i j w' here own]
    · have other : ticket i ≠ some w := fun same => mine (Option.some.inj (own.symm.trans same))
      rcases state with done | ⟨none_, k, same, member⟩
      · left
        simp [other, done]
      · right
        exact ⟨by simp [other, none_], k, same, (mem_iff k w').mpr ⟨member, mine⟩⟩
  · intro i not
    have other : ticket i ≠ some w := by
      intro own
      obtain ⟨i', _, waits', own'⟩ := room.queued j w here
      exact not (distinct i' i w own' own ▸ waits')
    simp [other, room.asleep i not]
  · intro i k w' member own
    obtain ⟨old, different⟩ := (mem_iff k w').mp member
    have other : ticket i ≠ some w := fun same => different (Option.some.inj (own.symm.trans same))
    simp [other, room.unwoken i k w' old own]

end WaitingRoom
end Interaction
