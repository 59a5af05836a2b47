import Mathlib.Data.List.Count

namespace Interaction
universe u v

/-! Runs with labels -/

variable {σ : Type u} {δ : Type v} {step : σ → δ → σ → Prop}

/-- A run with these labels. -/
inductive Steps (step : σ → δ → σ → Prop) : σ → List δ → σ → Prop
  | stop {s} : Steps step s [] s
  | next {s d s' ds s''} : step s d s' → Steps step s' ds s'' → Steps step s (d :: ds) s''

theorem Steps.each {P : δ → Prop} {s s' : σ} {ds : List δ} (run : Steps step s ds s')
    (each : ∀ s d s', step s d s' → P d) : ∀ d ∈ ds, P d := by
  induction run with
  | stop => simp
  | @next s d s' ds s'' first _ ih =>
    intro other member
    rcases List.mem_cons.mp member with rfl | later
    · exact each s other s' first
    · exact ih other later

/-- The rule of a balance: what was in stock, and what has entered, is in stock
now, or has left, or is lost. -/
theorem Steps.balance {stock : σ → Nat} {enters leaves loses : δ → Bool} {s s' : σ} {ds : List δ}
    (run : Steps step s ds s') (each : ∀ s d s', step s d s' →
      stock s + (enters d).toNat = stock s' + (leaves d).toNat + (loses d).toNat) :
    stock s + ds.countP enters = stock s' + ds.countP leaves + ds.countP loses := by
  have toNat : ∀ b : Bool, b.toNat = if b = true then 1 else 0 := by decide
  induction run with
  | stop => rfl
  | @next s d s' ds s'' first _ ih =>
    have now := each s d s' first
    simp only [toNat] at now
    simp only [List.countP_cons]
    omega

/-! Runs in which somebody waits for a known number of turns -/

/-- While `waits` holds, `ahead` says how many turns come before the one that
brings about `served`. Each turn counts it down, and nothing else changes it. -/
structure Countdown (step : σ → δ → σ → Prop) (turn : δ → Bool) (waits served : σ → Prop)
    (ahead : σ → Option Nat) : Prop where
  passes : ∀ s d s' n, waits s → ahead s = some n → step s d s' → turn d = false →
    waits s' ∧ ahead s' = some n
  advances : ∀ s d s' n, waits s → ahead s = some (n + 1) → step s d s' → turn d = true →
    waits s' ∧ ahead s' = some n
  serves : ∀ s d s', waits s → ahead s = some 0 → step s d s' → turn d = true → served s'

variable {turn : δ → Bool} {waits served : σ → Prop} {ahead : σ → Option Nat} {s s' : σ} {ds : List δ} {n : Nat}

/-- As long as there have been no more turns than were ahead, the wait goes on. -/
theorem Countdown.run (counts : Countdown step turn waits served ahead) (run : Steps step s ds s')
    (waiting : waits s) (here : ahead s = some n) (few : ds.countP turn ≤ n) :
    waits s' ∧ ahead s' = some (n - ds.countP turn) := by
  induction run generalizing n with
  | stop => exact ⟨waiting, here⟩
  | @next s d s' ds s'' first _ ih =>
    rw [List.countP_cons] at few ⊢
    cases is : turn d with
    | false =>
      obtain ⟨waiting', here'⟩ := counts.passes s d s' n waiting here first is
      simp only [is, Bool.false_eq_true, if_false, Nat.add_zero] at few ⊢
      exact ih waiting' here' few
    | true =>
      simp only [is, if_true] at few ⊢
      obtain ⟨m, rfl⟩ : ∃ m, n = m + 1 := ⟨n - 1, by omega⟩
      obtain ⟨waiting', here'⟩ := counts.advances s d s' m waiting here first is
      obtain ⟨later, at_⟩ := ih waiting' here' (by omega)
      exact ⟨later, at_.trans (congrArg some (by omega))⟩

/-- The turn after those that were ahead ends the wait. -/
theorem Countdown.ends (counts : Countdown step turn waits served ahead) (run : Steps step s ds s')
    (waiting : waits s) (here : ahead s = some n) (more : n < ds.countP turn) :
    ∃ before d after s₁ s₂, ds = before ++ d :: after ∧ turn d = true ∧ before.countP turn = n ∧
      Steps step s before s₁ ∧ step s₁ d s₂ ∧ Steps step s₂ after s' ∧ served s₂ := by
  induction run generalizing n with
  | stop => exact absurd more (Nat.not_lt_zero n)
  | @next s d s' ds s'' first rest ih =>
    rw [List.countP_cons] at more
    cases is : turn d with
    | false =>
      obtain ⟨waiting', here'⟩ := counts.passes s d s' n waiting here first is
      simp only [is, Bool.false_eq_true, if_false, Nat.add_zero] at more
      obtain ⟨before, d', after, s₁, s₂, rfl, turns, few, run, serving, later, ended⟩ := ih waiting' here' more
      refine ⟨d :: before, d', after, s₁, s₂, rfl, turns, ?_, .next first run, serving, later, ended⟩
      rw [List.countP_cons_of_neg (by simp [is]), few]
    | true =>
      cases n with
      | zero =>
        have ended := counts.serves s d s' waiting here first is
        exact ⟨[], d, ds, s, s', rfl, is, rfl, .stop, first, rest, ended⟩
      | succ m =>
        obtain ⟨waiting', here'⟩ := counts.advances s d s' m waiting here first is
        simp only [is, if_true] at more
        obtain ⟨before, d', after, s₁, s₂, rfl, turns, few, run, serving, later, ended⟩ :=
          ih waiting' here' (by omega)
        refine ⟨d :: before, d', after, s₁, s₂, rfl, turns, ?_, .next first run, serving, later, ended⟩
        rw [List.countP_cons_of_pos is, few]

end Interaction
