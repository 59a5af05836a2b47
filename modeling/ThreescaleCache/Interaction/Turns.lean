import ThreescaleCache.Interaction.Moments

namespace Interaction
universe u v w x y

/-! One party of a run by itself: one program after the other. -/

variable {ι : Type y} [DecidableEq ι] {C : Type u} {R : C → Type v} {σ : Type x} {α : Type w}
  {S : Parties ι C R σ α} {guard : Config ι C R σ α → Config ι C R σ α → Prop}
  {init s : Config ι C R σ α} {i : ι} {given : α → Prog C R α → Prop} {a : α}

/-- Programs that have returned, each of them given after what the last one
returned, with all the calls that they made. -/
inductive Turns (given : α → Prog C R α → Prop) (a : α) : List (Event C R) → α → Prop
  | start : Turns given a [] a
  | next {t u b c p} : Turns given a t b → given b p → Prog.Path p u (.done c) → Turns given a (t ++ u) c

/-- In every run, the calls of a party are those of its turns, and of the
program that it is at. -/
theorem Reach.turns (reach : Reach S guard init s) (start : init.procs i = .done a) (fresh : init.trace = [])
    (gives : ∀ a t p, S.resume i a t p → given a p) :
    ∃ t b, Turns given a t b ∧
      ((callsOf i s.trace = t ∧ s.procs i = .done b) ∨
        ∃ u p, callsOf i s.trace = t ++ u ∧ given b p ∧ Prog.Path p u (s.procs i)) := by
  induction reach with
  | start => exact ⟨[], a, .start, Or.inl ⟨by rw [fresh]; rfl, start⟩⟩
  | @next s s' reach step _ ih =>
    obtain ⟨t, b, turns, at_⟩ := ih
    cases step with
    | @call j c k making =>
      refine ⟨t, b, turns, ?_⟩
      unfold Config.called
      dsimp only
      rw [callsOf_append]
      by_cases same : j = i
      · subst same
        rw [Function.update_self, callsOf_cons_self]
        rcases at_ with ⟨_, idle⟩ | ⟨u, p, calls, given_, path⟩
        · rw [idle] at making
          cases making
        · rw [making] at path
          refine Or.inr ⟨_, p, ?_, given_, path.append (.next .start)⟩
          rw [calls, List.append_assoc]
          rfl
      · rw [Function.update_of_ne (Ne.symm same), callsOf_cons_ne same]
        simpa [callsOf] using at_
    | @resume j b' p making allowed =>
      unfold Config.resumed
      dsimp only
      by_cases same : j = i
      · subst same
        rw [Function.update_self]
        rcases at_ with ⟨calls, idle⟩ | ⟨u, q, calls, given_, path⟩
        · rw [making] at idle
          cases idle
          refine ⟨t, _, turns, Or.inr ⟨[], p, ?_, gives _ _ _ allowed, .start⟩⟩
          rw [calls, List.append_nil]
        · rw [making] at path
          refine ⟨t ++ u, b', turns.next given_ path, Or.inr ⟨[], p, ?_, gives _ _ _ allowed, .start⟩⟩
          rw [calls, List.append_nil]
      · rw [Function.update_of_ne (Ne.symm same)]
        exact ⟨t, b, turns, at_⟩
    | env => exact ⟨t, b, turns, at_⟩

/-- A party that is idle has only had its turns. -/
theorem Reach.turns_idle {b : α} (reach : Reach S guard init s) (start : init.procs i = .done a)
    (fresh : init.trace = []) (gives : ∀ a t p, S.resume i a t p → given a p) (idle : s.procs i = .done b) :
    Turns given a (callsOf i s.trace) b := by
  obtain ⟨t, b', turns, ⟨calls, at_⟩ | ⟨u, p, calls, given_, path⟩⟩ := reach.turns start fresh gives
  · rw [idle] at at_
    cases at_
    rw [calls]
    exact turns
  · rw [idle] at path
    rw [calls]
    exact turns.next given_ path

end Interaction
