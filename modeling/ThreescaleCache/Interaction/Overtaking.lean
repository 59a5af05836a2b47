import ThreescaleCache.Interaction.Interleave

namespace Interaction
universe u v w x y z z'

/-! Optimistic parties. They read a cell, and write it on the condition that
it still has the version they have seen. -/

/-- How a call bears on the cell, with the version that it has read or relied on. -/
inductive Access (V : Type z) where
  | read (version : V)
  | wrote
  | refused (version : V)
  | aside

namespace Access
variable {V : Type z}

def isWrite : Access V → Bool
  | .wrote => true
  | _ => false

def isRefusal : Access V → Bool
  | .refused _ => true
  | _ => false

end Access

/-- What a party has seen of the cell since its last write, and how many of its
writes have been refused. -/
structure Attempts (V : Type z) where
  seen : List V := []
  lost : Nat := 0

def Attempts.after {V : Type z} (a : Attempts V) : Access V → Attempts V
  | .read version => { a with seen := version :: a.seen }
  | .wrote => { a with seen := [] }
  | .refused _ => { seen := [], lost := a.lost + 1 }
  | .aside => a

theorem Attempts.lost_le_after {V : Type z} (a : Attempts V) (access : Access V) :
    a.lost ≤ (a.after access).lost := by
  cases access with
  | refused version => exact Nat.le_succ _
  | read version | wrote | aside => exact Nat.le_refl _

/-- A cell of the shared state. Its version only changes when it is written,
and a write is only refused if it relies on another version. -/
structure Cell {ι : Type y} {C : Type u} {R : C → Type v} {σ : Type x}
    (exec : ι → (c : C) → σ → R c × σ) (V : Type z) where
  version : σ → V
  access : Event C R → Access V
  read : ∀ i c s version', access ⟨c, (exec i c s).1⟩ = .read version' → version s = version'
  refused : ∀ i c s version', access ⟨c, (exec i c s).1⟩ = .refused version' → version s ≠ version'
  kept : ∀ i c s, access ⟨c, (exec i c s).1⟩ ≠ .wrote → version (exec i c s).2 = version s

namespace Cell
variable {ι : Type y} [DecidableEq ι] {C : Type u} {R : C → Type v} {σ : Type x} {V : Type z}
  {exec : ι → (c : C) → σ → R c × σ} (cell : Cell exec V)

/-- The writes that all others than `i` have made. -/
def foreign (i : ι) (t : List (ι × Event C R)) : Nat :=
  t.countP fun e => e.1 ≠ i && (cell.access e.2).isWrite

/-- The writes of `i` that were refused. -/
def refusals (i : ι) (t : List (ι × Event C R)) : Nat :=
  t.countP fun e => e.1 = i && (cell.access e.2).isRefusal

/-- Each write of `i` that was refused had been overtaken by another one, and so
is the next one unless the cell still has all versions that `i` has seen. -/
structure Overtaken (i : ι) (a : Attempts V) (s : σ) (t : List (ι × Event C R)) : Prop where
  counted : cell.refusals i t = a.lost
  lost : a.lost ≤ cell.foreign i t
  seen : ∀ version ∈ a.seen, cell.version s = version ∨ a.lost < cell.foreign i t

variable {cell} {i j : ι} {a : Attempts V} {s s' : σ} {t : List (ι × Event C R)}

theorem foreign_append (e : ι × Event C R) : cell.foreign i (t ++ [e]) =
    cell.foreign i t + if e.1 ≠ i && (cell.access e.2).isWrite then 1 else 0 := by
  rw [foreign, List.countP_append, List.countP_singleton]
  rfl

theorem refusals_append (e : ι × Event C R) : cell.refusals i (t ++ [e]) =
    cell.refusals i t + if e.1 = i && (cell.access e.2).isRefusal then 1 else 0 := by
  rw [refusals, List.countP_append, List.countP_singleton]
  rfl

theorem foreign_own (e : Event C R) : cell.foreign i (t ++ [(i, e)]) = cell.foreign i t := by
  simp only [foreign_append, ne_eq, not_true_eq_false, decide_false, Bool.false_and, Bool.false_eq_true,
    if_false, Nat.add_zero]

theorem refusals_other (other : j ≠ i) (e : Event C R) : cell.refusals i (t ++ [(j, e)]) = cell.refusals i t := by
  simp only [refusals_append, other, decide_false, Bool.false_and, Bool.false_eq_true, if_false, Nat.add_zero]

theorem refusals_own (e : Event C R) : cell.refusals i (t ++ [(i, e)]) =
    cell.refusals i t + if (cell.access e).isRefusal then 1 else 0 := by
  simp only [refusals_append, decide_true, Bool.true_and]

theorem overtaken_start (s : σ) : cell.Overtaken i {} s [] :=
  ⟨rfl, Nat.le_refl 0, fun _ member => absurd member List.not_mem_nil⟩

/-- A call of `i`, which relies on nothing but what it has seen. -/
theorem Overtaken.own (overtaken : cell.Overtaken i a s t) {c : C}
    (vouched : ∀ version, cell.access ⟨c, (exec i c s).1⟩ = .refused version → version ∈ a.seen) :
    cell.Overtaken i (a.after (cell.access ⟨c, (exec i c s).1⟩)) (exec i c s).2
      (t ++ [(i, ⟨c, (exec i c s).1⟩)]) := by
  have kept := cell.kept i c s
  have read := cell.read i c s
  have refused := cell.refused i c s
  cases access : cell.access ⟨c, (exec i c s).1⟩ with
  | read version =>
    have still := kept (by rw [access]; rintro ⟨⟩)
    refine ⟨?_, ?_, fun other member => ?_⟩
    · rw [refusals_own, access]
      exact overtaken.counted
    · rw [foreign_own]
      exact overtaken.lost
    · rw [foreign_own, still]
      rcases List.mem_cons.mp member with rfl | old
      · exact Or.inl (read other access)
      · exact overtaken.seen other old
  | wrote =>
    refine ⟨?_, ?_, fun _ member => absurd member List.not_mem_nil⟩
    · rw [refusals_own, access]
      exact overtaken.counted
    · rw [foreign_own]
      exact overtaken.lost
  | refused version =>
    refine ⟨?_, ?_, fun _ member => absurd member List.not_mem_nil⟩
    · rw [refusals_own, access]
      exact congrArg (· + 1) overtaken.counted
    · rw [foreign_own]
      rcases overtaken.seen version (vouched version access) with same | more
      · exact absurd same (refused version access)
      · exact more
  | aside =>
    have still := kept (by rw [access]; rintro ⟨⟩)
    refine ⟨?_, ?_, fun version member => ?_⟩
    · rw [refusals_own, access]
      exact overtaken.counted
    · rw [foreign_own]
      exact overtaken.lost
    · rw [foreign_own, still]
      exact overtaken.seen version member

/-- A call of another party. -/
theorem Overtaken.other (overtaken : cell.Overtaken i a s t) (other : j ≠ i) (c : C) :
    cell.Overtaken i a (exec j c s).2 (t ++ [(j, ⟨c, (exec j c s).1⟩)]) := by
  have more : cell.foreign i t ≤ cell.foreign i (t ++ [(j, ⟨c, (exec j c s).1⟩)]) := by
    rw [foreign_append]
    exact Nat.le_add_right _ _
  refine ⟨(refusals_other other _).trans overtaken.counted, Nat.le_trans overtaken.lost more, fun version member => ?_⟩
  rcases overtaken.seen version member with same | overtook
  · by_cases wrote : cell.access ⟨c, (exec j c s).1⟩ = .wrote
    · right
      rw [foreign_append, wrote]
      simp only [ne_eq, other, not_false_eq_true, decide_true, Access.isWrite, Bool.and_self, if_true]
      exact Nat.lt_succ_of_le overtaken.lost
    · exact Or.inl ((cell.kept j c s wrote).trans same)
  · exact Or.inr (Nat.lt_of_lt_of_le overtook more)

theorem Overtaken.env (overtaken : cell.Overtaken i a s t) (kept : cell.version s' = cell.version s) :
    cell.Overtaken i a s' t :=
  ⟨overtaken.counted, overtaken.lost, fun version member => kept.symm ▸ overtaken.seen version member⟩

end Cell

/-- The rule for optimistic parties: whatever else is invariant, their writes are
only refused if they were overtaken. -/
theorem Preserved.overtaken {ι : Type y} [DecidableEq ι] {C : Type u} {R : C → Type v} {σ : Type x} {α : Type w}
    {V : Type z} {L : Type z'} {S : Parties ι C R σ α} {guard : Config ι C R σ α → Config ι C R σ α → Prop}
    {P : ι → Protocol C R L} {Q : ι → L → α → Prop} {Inv : Config ι C R σ α → (ι → L) → Prop}
    (preserved : Preserved S guard P Q Inv) (cell : Cell S.exec V) (view : L → Attempts V)
    (vouched : ∀ i ℓ c r version, (P i).may ℓ c → cell.access ⟨c, r⟩ = .refused version →
      version ∈ (view ℓ).seen)
    (noticed : ∀ i ℓ c r ℓ', (P i).next ℓ c r = some ℓ' → view ℓ' = (view ℓ).after (cell.access ⟨c, r⟩))
    (once : ∀ i a t p, ¬S.resume i a t p)
    (env : ∀ s s', S.env s s' → cell.version s' = cell.version s) :
    Preserved S guard P Q fun s ℓ =>
      Inv s ℓ ∧ ∀ i, cell.Overtaken i (view (ℓ i)) s.shared s.trace where
  call := by
    intro s ℓ i c k inv at_ may guarded
    obtain ⟨inv, overtaken⟩ := inv
    obtain ⟨ℓ', known, inv'⟩ := preserved.call s ℓ i c k inv at_ may guarded
    refine ⟨ℓ', known, inv', fun j => ?_⟩
    by_cases same : j = i
    · subst same
      rw [Function.update_self, noticed j (ℓ j) c _ ℓ' known]
      exact (overtaken j).own fun version => vouched j (ℓ j) c _ version may
    · rw [Function.update_of_ne same]
      exact (overtaken j).other (Ne.symm same) c
  resume := fun _ _ i a p _ _ _ resumes _ => absurd resumes (once i a _ p)
  env := fun s ℓ σ' inv moved =>
    ⟨preserved.env s ℓ σ' inv.1 moved, fun i => (inv.2 i).env (env s.shared σ' moved)⟩

end Interaction
