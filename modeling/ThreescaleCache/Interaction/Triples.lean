import ThreescaleCache.Interaction.Alone
import ThreescaleCache.Interaction.Follows

namespace Interaction
universe u v w x y

variable {C : Type u} {R : C → Type v} {σ : Type x} {α β : Type w} {exec : (c : C) → σ → R c × σ}

/-- Run alone from a state with `P`, the program leaves a state with `Q a` if
it returns `a`. -/
def Triple (exec : (c : C) → σ → R c × σ) (P : σ → Prop) (p : Prog C R α) (Q : α → σ → Prop) : Prop :=
  ∀ s, P s → Alone exec (fun s' r => ∀ a, r = some a → Q a s') p s

theorem triple_done {P : σ → Prop} {Q : α → σ → Prop} {a : α} (held : ∀ s, P s → Q a s) :
    Triple exec P (.done a) Q := by
  intro s pre _ is
  cases is
  exact held s pre

theorem triple_trap {P : σ → Prop} {Q : α → σ → Prop} : Triple exec P .trap Q := by
  intro _ _ _ is
  cases is

theorem triple_spin {P : σ → Prop} {Q : α → σ → Prop} : Triple exec P .spin Q := by
  intro _ _ _ is
  cases is

/-- The rule of sequencing. -/
theorem triple_bind {P : σ → Prop} {Q : α → σ → Prop} {Q' : β → σ → Prop} {p : Prog C R α}
    {f : α → Prog C R β} (first : Triple exec P p Q) (rest : ∀ a, Triple exec (Q a) (f a) Q') :
    Triple exec P (p >>= f) Q' := by
  intro s pre
  refine alone_bind.mpr ((first s pre).mono fun s' r held => ?_)
  cases r with
  | none =>
    intro _ is
    cases is
  | some a => exact rest a s' (held a rfl)

/-- The rule of consequence. -/
theorem Triple.mono {P P' : σ → Prop} {Q Q' : α → σ → Prop} {p : Prog C R α} (triple : Triple exec P p Q)
    (stronger : ∀ s, P' s → P s) (weaker : ∀ a s, Q a s → Q' a s) : Triple exec P' p Q' :=
  fun s pre => (triple s (stronger s pre)).mono fun s' _ held a is => weaker a s' (held a is)

/-- A fact in the precondition that is not about the state. -/
theorem triple_given {P : σ → Prop} {φ : Prop} {Q : α → σ → Prop} {p : Prog C R α}
    (given : φ → Triple exec P p Q) : Triple exec (fun s => P s ∧ φ) p Q :=
  fun s pre => given pre.2 s pre.1

/-- What all calls of a program keep, it keeps. -/
theorem triple_only {A : C → Prop} {P : σ → Prop} {p : Prog C R α} (only : p.Only A)
    (kept : ∀ c s, A c → P s → P (exec c s).2) : Triple exec P p fun _ => P := by
  intro s pre
  induction p generalizing s with
  | done =>
    intro _ _
    exact pre
  | trap | spin =>
    intro _ is
    cases is
  | call c k ih => exact ih _ (only.2 _) _ (kept c s only.1 pre)

/-- The rule for a program that follows a protocol and makes calls of `A` only:
what these calls keep, when they are allowed, it keeps. -/
theorem Follows.triple {L : Type y} {P : Protocol C R L} {A : C → Prop} {I : σ → L → Prop} {Q : L → α → Prop}
    {p : Prog C R α} {ℓ : L} (preserved : ∀ s ℓ c, I s ℓ → P.may ℓ c → A c →
      ∃ ℓ', P.next ℓ c (exec c s).1 = some ℓ' ∧ I (exec c s).2 ℓ')
    (follows : Follows P Q p ℓ) (only : p.Only A) :
    Triple exec (fun s => I s ℓ) p fun a s => ∃ ℓ', I s ℓ' ∧ Q ℓ' a := by
  intro s inv
  induction p generalizing s ℓ with
  | done a =>
    rintro _ ⟨⟩
    exact ⟨ℓ, inv, follows⟩
  | trap | spin =>
    intro _ is
    cases is
  | call c k ih =>
    obtain ⟨ℓ', known, inv'⟩ := preserved s ℓ c inv follows.1 only.1
    exact ih _ (follows.2 _ ℓ' known) (only.2 _) _ inv'

/-- What is known of a run that has returned. -/
theorem Triple.run {P : σ → Prop} {Q : α → σ → Prop} {p : Prog C R α} {s s' : σ} {t : List (Event C R)} {a : α}
    (triple : Triple exec P p Q) (pre : P s) (ran : p.run exec s = ⟨t, .done a, s'⟩) : Q a s' := by
  have held := alone_iff_run.mp (triple s pre)
  rw [ran] at held
  exact held a rfl

end Interaction
