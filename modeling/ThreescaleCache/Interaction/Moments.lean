import ThreescaleCache.Interaction.Interleave

namespace Interaction
universe u v w x y

/-! The moments of a run: what one party does in it, and what holds between two
of its calls. -/

variable {ι : Type y} [DecidableEq ι] {C : Type u} {R : C → Type v} {σ : Type x} {α : Type w}
  {S : Parties ι C R σ α} {guard : Config ι C R σ α → Config ι C R σ α → Prop}
  {init s : Config ι C R σ α} {i : ι}

/-- The calls of the party `i`. -/
def callsOf (i : ι) (t : List (ι × Event C R)) : List (Event C R) :=
  t.filterMap fun e => if e.1 = i then some e.2 else none

theorem callsOf_append (i : ι) (t t' : List (ι × Event C R)) :
    callsOf i (t ++ t') = callsOf i t ++ callsOf i t' := List.filterMap_append

theorem callsOf_cons_self (i : ι) (e : Event C R) (t : List (ι × Event C R)) :
    callsOf i ((i, e) :: t) = e :: callsOf i t := List.filterMap_cons_some (if_pos rfl)

theorem callsOf_cons_ne {j : ι} (other : j ≠ i) (e : Event C R) (t : List (ι × Event C R)) :
    callsOf i ((j, e) :: t) = callsOf i t := List.filterMap_cons_none (if_neg other)

theorem callsOf_eq_nil {t : List (ι × Event C R)} (none_ : callsOf i t = []) : ∀ e ∈ t, e.1 ≠ i := by
  intro e member own
  have gone := List.filterMap_eq_nil_iff.mp none_ e member
  rw [if_pos own] at gone
  cases gone

/-- Where the calls of a party can be split, so can the trace. -/
theorem callsOf_eq_cons {t : List (ι × Event C R)} {e : Event C R} {u : List (Event C R)}
    (calls : callsOf i t = e :: u) : ∃ before after, t = before ++ (i, e) :: after ∧
      (∀ e ∈ before, e.1 ≠ i) ∧ callsOf i after = u := by
  obtain ⟨before, ⟨j, e'⟩, after, split, early, own, later⟩ := List.filterMap_eq_cons_iff.mp calls
  by_cases same : j = i
  · rw [if_pos same] at own
    cases Option.some.inj own
    subst same
    refine ⟨before, after, split, fun e member mine => ?_, later⟩
    have gone := early e member
    rw [if_pos mine] at gone
    cases gone
  · rw [if_neg same] at own
    cases own

/-- The calls of a party that is given no further program are a path of the
one it has begun with. -/
theorem Reach.path (reach : Reach S guard init s) (once : ∀ a t p, ¬S.resume i a t p) (fresh : init.trace = []) :
    Prog.Path (init.procs i) (callsOf i s.trace) (s.procs i) := by
  induction reach with
  | start =>
    rw [fresh]
    exact .start
  | @next s s' reach step _ ih =>
    cases step with
    | @call j c k at_ =>
      unfold Config.called
      dsimp only
      rw [callsOf_append]
      by_cases same : j = i
      · subst same
        rw [Function.update_self, callsOf_cons_self]
        rw [at_] at ih
        exact ih.append (.next .start)
      · rw [Function.update_of_ne (Ne.symm same), callsOf_cons_ne same]
        simpa [callsOf] using ih
    | @resume j a p at_ allowed =>
      have other : i ≠ j := by
        rintro rfl
        exact once a _ p allowed
      simpa only [Config.resumed, Function.update_of_ne other] using ih
    | env => exact ih

/-- Before each call of a run there was a configuration that made it. -/
theorem Reach.split {before after : List (ι × Event C R)} {c : C} {r : R c} (reach : Reach S guard init s)
    (later : init.trace.length ≤ before.length) (split : s.trace = before ++ (i, ⟨c, r⟩) :: after) :
    ∃ s₁ k, Reach S guard init s₁ ∧ s₁.trace = before ∧ s₁.procs i = .call c k ∧
      r = (S.exec i c s₁.shared).1 ∧ Reach S guard (s₁.called S i c k) s := by
  induction reach generalizing after with
  | start =>
    have length := congrArg List.length split
    simp only [List.length_append, List.length_cons] at length
    omega
  | @next s s' reach step guarded ih =>
    cases step with
    | @call j c' k at_ =>
      simp only [Config.called] at split
      rcases List.eq_nil_or_concat after with rfl | ⟨rest, last, rfl⟩
      · obtain ⟨same, event⟩ := List.append_inj' split rfl
        cases List.singleton_inj.mp event
        exact ⟨s, k, reach, same, at_, rfl, .start⟩
      · have shorter : s.trace ++ [(j, ⟨c', (S.exec j c' s.shared).1⟩)] =
            (before ++ (i, ⟨c, r⟩) :: rest) ++ [last] := by
          rw [split, List.concat_eq_append, List.append_assoc, List.cons_append]
        obtain ⟨same, _⟩ := List.append_inj' shorter rfl
        obtain ⟨s₁, k₁, reach₁, trace, at₁, reply, rest₁⟩ := ih same
        exact ⟨s₁, k₁, reach₁, trace, at₁, reply, .next rest₁ (.call at_) guarded⟩
    | @resume j a p at_ allowed =>
      obtain ⟨s₁, k₁, reach₁, trace, at₁, reply, rest₁⟩ := ih split
      exact ⟨s₁, k₁, reach₁, trace, at₁, reply, .next rest₁ (.resume at_ allowed) guarded⟩
    | @env σ' moved =>
      obtain ⟨s₁, k₁, reach₁, trace, at₁, reply, rest₁⟩ := ih split
      exact ⟨s₁, k₁, reach₁, trace, at₁, reply, .next rest₁ (.env moved) guarded⟩

/-- What only calls of the kind `A` can change holds until there is one. -/
theorem Reach.until {p : σ → Prop} {A : Event C R → Prop} (reach : Reach S guard init s)
    (calls : ∀ j c σ₁, p σ₁ → p (S.exec j c σ₁).2 ∨ A ⟨c, (S.exec j c σ₁).1⟩)
    (env : ∀ σ₁ σ₂, S.env σ₁ σ₂ → p σ₁ → p σ₂) (start : p init.shared) :
    ∃ t, s.trace = init.trace ++ t ∧ (p s.shared ∨ ∃ e ∈ t, A e.2) := by
  induction reach with
  | start => exact ⟨[], (List.append_nil _).symm, Or.inl start⟩
  | @next s s' reach step _ ih =>
    obtain ⟨t, trace, holds⟩ := ih
    cases step with
    | @call j c k at_ =>
      refine ⟨t ++ [(j, ⟨c, (S.exec j c s.shared).1⟩)], by simp only [Config.called, trace, List.append_assoc], ?_⟩
      rcases holds with now | ⟨e, member, changed⟩
      · rcases calls j c s.shared now with still | changes
        · exact Or.inl still
        · exact Or.inr ⟨_, List.mem_append_right _ (List.mem_singleton_self _), changes⟩
      · exact Or.inr ⟨e, List.mem_append_left _ member, changed⟩
    | resume => exact ⟨t, trace, holds⟩
    | env moved => exact ⟨t, trace, holds.imp_left (env _ _ moved)⟩

end Interaction
