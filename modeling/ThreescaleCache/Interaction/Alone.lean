import ThreescaleCache.Interaction.Prog

namespace Interaction
universe u v w x y

variable {C : Type u} {R : C → Type v} {σ : Type x} {τ : Type y} {α β : Type w}
  {exec : (c : C) → σ → R c × σ}

/-- Run alone from the state `s`, the program `p` leaves a state and a result
that satisfy `Q`. The result is `none` where the program is aborted. -/
def Alone (exec : (c : C) → σ → R c × σ) (Q : σ → Option α → Prop) : Prog C R α → σ → Prop
  | .done a, s => Q s (some a)
  | .trap, s => Q s none
  | .spin, s => Q s none
  | .call c k, s => Alone exec Q (k (exec c s).1) (exec c s).2

theorem alone_call {Q : σ → Option α → Prop} {c : C} {k : R c → Prog C R α} {s : σ} :
    Alone exec Q (.call c k) s ↔ Alone exec Q (k (exec c s).1) (exec c s).2 := Iff.rfl

/-- What a sequence has to do after its first part, if that has returned. -/
def After (exec : (c : C) → σ → R c × σ) (Q : σ → Option β → Prop) (f : α → Prog C R β) (s : σ) :
    Option α → Prop
  | none => Q s none
  | some a => Alone exec Q (f a) s

theorem after_some {Q : σ → Option β → Prop} {f : α → Prog C R β} {s : σ} {a : α} :
    After exec Q f s (some a) ↔ Alone exec Q (f a) s := Iff.rfl

/-- The rule of sequencing. -/
theorem alone_bind {Q : σ → Option β → Prop} {p : Prog C R α} {f : α → Prog C R β} {s : σ} :
    Alone exec Q (p >>= f) s ↔ Alone exec (After exec Q f) p s := by
  induction p generalizing s with
  | done | trap | spin => exact Iff.rfl
  | call c k ih => exact ih _

/-- A call, and what follows its reply. -/
theorem alone_perform_bind {R : C → Type w} {exec : (c : C) → σ → R c × σ} {Q : σ → Option β → Prop} {c : C}
    {f : R c → Prog C R β} {s : σ} :
    Alone exec Q (Prog.perform c >>= f) s ↔ Alone exec Q (f (exec c s).1) (exec c s).2 := Iff.rfl

theorem Alone.mono {Q Q' : σ → Option α → Prop} {p : Prog C R α} {s : σ} (alone : Alone exec Q p s)
    (weaker : ∀ s' r, Q s' r → Q' s' r) : Alone exec Q' p s := by
  induction p generalizing s with
  | done a => exact weaker s (some a) alone
  | trap | spin => exact weaker s none alone
  | call c k ih => exact ih _ alone

theorem Alone.and {Q Q' : σ → Option α → Prop} {p : Prog C R α} {s : σ} (alone : Alone exec Q p s)
    (alone' : Alone exec Q' p s) : Alone exec (fun s' r => Q s' r ∧ Q' s' r) p s := by
  induction p generalizing s with
  | done | trap | spin => exact ⟨alone, alone'⟩
  | call c k ih => exact ih _ alone alone'

/-- What the rules derive is what the run shows. -/
theorem alone_iff_run {Q : σ → Option α → Prop} {p : Prog C R α} {s : σ} :
    Alone exec Q p s ↔ Q (p.run exec s).state (p.run exec s).rest.result := by
  induction p generalizing s with
  | done | trap | spin => exact Iff.rfl
  | call c k ih => exact ih _

/-! Runs of which some moments are noted -/

/-- What is seen of the states in which the calls of a run are made. -/
def seen (exec : (c : C) → σ → R c × σ) (see : C → σ → List τ) : σ → List (Event C R) → List τ
  | _, [] => []
  | s, e :: t => see e.1 s ++ seen exec see (exec e.1 s).2 t

/-- The environment that also notes what is seen. -/
def watched (exec : (c : C) → σ → R c × σ) (see : C → σ → List τ) (c : C) (s : σ × List τ) :
    R c × (σ × List τ) :=
  ((exec c s.1).1, ((exec c s.1).2, s.2 ++ see c s.1))

variable {see : C → σ → List τ}

/-- Noting does not change the run. -/
theorem alone_watched_iff {Q : σ × List τ → Option α → Prop} {p : Prog C R α} {s : σ} {noted : List τ} :
    Alone (watched exec see) Q p (s, noted) ↔
      Q ((p.run exec s).state, noted ++ seen exec see s (p.run exec s).trace) (p.run exec s).rest.result := by
  induction p generalizing s noted with
  | done | trap | spin =>
    simp only [Prog.run, seen, List.append_nil]
    exact Iff.rfl
  | call c k ih =>
    simp only [Prog.run, seen, ← List.append_assoc]
    exact ih _

/-- Where nothing is to be seen, a rule without noting is enough. -/
theorem Alone.unseen {Q : σ → Option α → Prop} {p : Prog C R α} {s : σ} {noted : List τ}
    (alone : Alone exec Q p s) (only : p.Only fun c => ∀ s, see c s = []) :
    Alone (watched exec see) (fun s' r => Q s'.1 r ∧ s'.2 = noted) p (s, noted) := by
  induction p generalizing s with
  | done | trap | spin => exact ⟨alone, rfl⟩
  | call c k ih =>
    refine alone_call.mpr ?_
    simp only [watched, only.1 s, List.append_nil]
    exact ih _ alone (only.2 _)

end Interaction
