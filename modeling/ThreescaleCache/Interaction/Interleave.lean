import Mathlib.Data.List.Basic
import ThreescaleCache.Interaction.Follows

namespace Interaction
universe u v w x y z

/-- Parties `ι` that share a state `σ`. A party works through one program at
a time; `resume` says which program it may be given once the last one has
returned, and `env` what happens to the state outside all programs. -/
structure Parties (ι : Type y) (C : Type u) (R : C → Type v) (σ : Type x) (α : Type w) where
  exec : ι → (c : C) → σ → R c × σ
  env : σ → σ → Prop
  resume : ι → α → List (ι × Event C R) → Prog C R α → Prop

/-- The shared state, what each party has left to do, and all calls so far. -/
structure Config (ι : Type y) (C : Type u) (R : C → Type v) (σ : Type x) (α : Type w) where
  shared : σ
  procs : ι → Prog C R α
  trace : List (ι × Event C R)

variable {ι : Type y} [DecidableEq ι] {C : Type u} {R : C → Type v} {σ : Type x} {α : Type w}
  {L : Type z}

/-- Party `i` has made a call of the kind `A`. -/
def Did (t : List (ι × Event C R)) (i : ι) (A : Event C R → Prop) : Prop := ∃ e, (i, e) ∈ t ∧ A e

omit [DecidableEq ι] in
theorem did_append {t : List (ι × Event C R)} {i j : ι} {e : Event C R} {A : Event C R → Prop} :
    Did (t ++ [(j, e)]) i A ↔ Did t i A ∨ (i = j ∧ A e) := by
  constructor
  · intro fact
    obtain ⟨e', member, a⟩ := fact
    rcases List.mem_append.mp member with old | new
    · exact Or.inl ⟨e', old, a⟩
    · cases List.mem_singleton.mp new
      exact Or.inr ⟨rfl, a⟩
  · intro fact
    obtain ⟨e', old, a⟩ | ⟨rfl, a⟩ := fact
    · exact ⟨e', List.mem_append_left _ old, a⟩
    · exact ⟨e, List.mem_append_right _ (List.mem_singleton_self _), a⟩

omit [DecidableEq ι] in
theorem not_did_nil (i : ι) (A : Event C R → Prop) : ¬Did ([] : List (ι × Event C R)) i A := by
  intro did
  obtain ⟨_, member, _⟩ := did
  cases member

omit [DecidableEq ι] in
theorem Did.mono {t t' : List (ι × Event C R)} {i : ι} {A : Event C R → Prop} (did : Did t i A) :
    Did (t ++ t') i A := by
  obtain ⟨e, member, a⟩ := did
  exact ⟨e, List.mem_append_left _ member, a⟩

/-- The configuration after party `i` has made the call `c`. -/
def Config.called (S : Parties ι C R σ α) (s : Config ι C R σ α) (i : ι) (c : C)
    (k : R c → Prog C R α) : Config ι C R σ α where
  shared := (S.exec i c s.shared).2
  procs := Function.update s.procs i (k (S.exec i c s.shared).1)
  trace := s.trace ++ [(i, ⟨c, (S.exec i c s.shared).1⟩)]

def Config.resumed (s : Config ι C R σ α) (i : ι) (p : Prog C R α) : Config ι C R σ α :=
  { s with procs := Function.update s.procs i p }

/-- One step of one party. The calls of different parties are atomic and come
in any order. -/
inductive Step (S : Parties ι C R σ α) : Config ι C R σ α → Config ι C R σ α → Prop
  | call {s i c k} : s.procs i = .call c k → Step S s (s.called S i c k)
  | resume {s i a p} : s.procs i = .done a → S.resume i a s.trace p → Step S s (s.resumed i p)
  | env {s σ'} : S.env s.shared σ' → Step S s { s with shared := σ' }

/-- Reachability by steps that all satisfy `guard`. -/
inductive Reach (S : Parties ι C R σ α) (guard : Config ι C R σ α → Config ι C R σ α → Prop)
    (init : Config ι C R σ α) : Config ι C R σ α → Prop
  | start : Reach S guard init init
  | next {s s'} : Reach S guard init s → Step S s s' → guard s s' → Reach S guard init s'

/-- Every step is allowed. -/
def anyStep : Config ι C R σ α → Config ι C R σ α → Prop := fun _ _ => True

/-- What a step has to preserve for `Inv` to be an invariant of parties that
follow their protocols, with `ℓ` the knowledge of each party. -/
structure Preserved (S : Parties ι C R σ α)
    (guard : Config ι C R σ α → Config ι C R σ α → Prop) (P : ι → Protocol C R L)
    (Q : ι → L → α → Prop) (Inv : Config ι C R σ α → (ι → L) → Prop) : Prop where
  call : ∀ (s : Config ι C R σ α) ℓ i c k, Inv s ℓ → s.procs i = .call c k →
    (P i).may (ℓ i) c → guard s (s.called S i c k) →
    ∃ ℓ', (P i).next (ℓ i) c (S.exec i c s.shared).1 = some ℓ' ∧
      Inv (s.called S i c k) (Function.update ℓ i ℓ')
  resume : ∀ (s : Config ι C R σ α) ℓ i a p, Inv s ℓ → s.procs i = .done a →
    Q i (ℓ i) a → S.resume i a s.trace p → guard s (s.resumed i p) →
    ∃ ℓ', Follows (P i) (Q i) p ℓ' ∧ Inv (s.resumed i p) (Function.update ℓ i ℓ')
  env : ∀ (s : Config ι C R σ α) ℓ σ', Inv s ℓ → S.env s.shared σ' →
    Inv { s with shared := σ' } ℓ

/-- The rule of interleaving: if all parties follow their protocols and the
invariant is preserved by every allowed call, it holds in every state that
any interleaving reaches, and there all parties still follow theirs. -/
theorem Reach.invariant {S : Parties ι C R σ α}
    {guard : Config ι C R σ α → Config ι C R σ α → Prop} {P : ι → Protocol C R L}
    {Q : ι → L → α → Prop} {Inv : Config ι C R σ α → (ι → L) → Prop}
    (preserved : Preserved S guard P Q Inv) {init s : Config ι C R σ α}
    (start : ∃ ℓ, Inv init ℓ ∧ ∀ i, Follows (P i) (Q i) (init.procs i) (ℓ i))
    (reach : Reach S guard init s) :
    ∃ ℓ, Inv s ℓ ∧ ∀ i, Follows (P i) (Q i) (s.procs i) (ℓ i) := by
  induction reach with
  | start => exact start
  | @next s s' reach step guarded ih =>
    obtain ⟨ℓ, inv, follows⟩ := ih
    cases step with
    | @call i c k at_ =>
      have here := follows i
      rw [at_] at here
      obtain ⟨ℓ', known, inv'⟩ := preserved.call s ℓ i c k inv at_ here.1 guarded
      refine ⟨Function.update ℓ i ℓ', inv', fun j => ?_⟩
      by_cases same : j = i
      · subst same
        simpa only [Config.called, Function.update_self] using here.2 _ _ known
      · simpa only [Config.called, Function.update_of_ne same] using follows j
    | @resume i a p at_ allowed =>
      have here := follows i
      rw [at_] at here
      obtain ⟨ℓ', later, inv'⟩ := preserved.resume s ℓ i a p inv at_ here allowed guarded
      refine ⟨Function.update ℓ i ℓ', inv', fun j => ?_⟩
      by_cases same : j = i
      · subst same
        simpa only [Config.resumed, Function.update_self] using later
      · simpa only [Config.resumed, Function.update_of_ne same] using follows j
    | @env σ' moved => exact ⟨ℓ, preserved.env s ℓ σ' inv moved, follows⟩

/-- The rule for a program that runs alone: its calls are answered by a state
that satisfies the invariant. -/
theorem Follows.run {P : Protocol C R L} {Q : L → α → Prop}
    {exec : (c : C) → σ → R c × σ} {Inv : σ → L → Prop}
    (preserved : ∀ s ℓ c, Inv s ℓ → P.may ℓ c →
      ∃ ℓ', P.next ℓ c (exec c s).1 = some ℓ' ∧ Inv (exec c s).2 ℓ')
    {p : Prog C R α} {s : σ} {ℓ : L} (follows : Follows P Q p ℓ) (inv : Inv s ℓ) :
    ∃ ℓ', P.track ℓ (p.run exec s).trace = some ℓ' ∧ Inv (p.run exec s).state ℓ' ∧
      Follows P Q (p.run exec s).rest ℓ' := by
  induction p generalizing s ℓ with
  | done | trap | spin => exact ⟨ℓ, rfl, inv, follows⟩
  | call c k ih =>
    obtain ⟨ℓ', known, inv'⟩ := preserved s ℓ c inv follows.1
    obtain ⟨ℓ₂, tracked, rest⟩ := ih _ (follows.2 _ ℓ' known) inv'
    exact ⟨ℓ₂, by simpa only [Prog.run, Protocol.track, known, Option.bind_some] using tracked, rest⟩

/-- The schedule of a finite run: which party makes the next call. Used to
exhibit runs. -/
def Config.play (S : Parties ι C R σ α) : List ι → Config ι C R σ α → Config ι C R σ α
  | [], s => s
  | i :: rest, s =>
    match s.procs i with
    | .call c k => (s.called S i c k).play S rest
    | _ => s.play S rest

theorem Reach.play {S : Parties ι C R σ α} {init s : Config ι C R σ α} (schedule : List ι)
    (reach : Reach S Interaction.anyStep init s) :
    Reach S Interaction.anyStep init (s.play S schedule) := by
  induction schedule generalizing s with
  | nil => exact reach
  | cons i rest ih =>
    unfold Config.play
    split
    · rename_i c k at_
      exact ih (.next reach (.call at_) trivial)
    · exact ih reach

/-- A schedule of which every call is allowed. -/
theorem Reach.play_guarded {S : Parties ι C R σ α}
    {guard : Config ι C R σ α → Config ι C R σ α → Prop} {init s : Config ι C R σ α}
    (reach : Reach S guard init s) (schedule : List ι)
    (allowed : ∀ n (short : n < schedule.length) c k,
      (s.play S (schedule.take n)).procs schedule[n] = .call c k →
      guard (s.play S (schedule.take n)) ((s.play S (schedule.take n)).called S schedule[n] c k)) :
    Reach S guard init (s.play S schedule) := by
  induction schedule generalizing s with
  | nil => exact reach
  | cons i rest ih =>
    have now := allowed 0 (Nat.succ_pos _)
    have later := fun n (short : n < rest.length) => allowed (n + 1) (Nat.succ_lt_succ short)
    simp only [List.take_zero, Config.play] at now
    simp only [List.take_succ_cons, Config.play, List.getElem_cons_succ] at later
    unfold Config.play
    split
    · rename_i c k at_
      simp only [at_] at later
      exact ih (.next reach (.call at_) (now c k at_)) later
    · rename_i not
      refine ih reach ?_
      cases at_ : s.procs i with
      | call c k => exact absurd at_ (not c k)
      | done | trap | spin => simpa only [at_] using later

end Interaction
