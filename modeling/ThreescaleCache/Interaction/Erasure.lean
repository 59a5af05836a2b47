import ThreescaleCache.Interaction.Interleave

namespace Interaction
universe u v w x x' y

/-! Programs that agree but for calls of one kind, which only the first makes. -/

namespace Prog
variable {C : Type u} {R : C → Type v} {α β α' β' : Type w} {hidden A : C → Prop} {ok : Event C R → Prop}

/-- The second program is the first without the hidden calls, as long as `ok`
admits all replies. Both make the other calls, of the kind `A`, and `Q` relates
what they return. -/
def Erases (hidden A : C → Prop) (ok : Event C R → Prop) (Q : α → β → Prop) : Prog C R α → Prog C R β → Prop
  | .done a, p' => ∃ b, p' = .done b ∧ Q a b
  | .trap, p' => p' = .trap
  | .spin, _ => True
  | .call c k, p' =>
    (hidden c ∧ ∀ r, ok ⟨c, r⟩ → Erases hidden A ok Q (k r) p') ∨
      (A c ∧ ∃ k', p' = .call c k' ∧ ∀ r, ok ⟨c, r⟩ → Erases hidden A ok Q (k r) (k' r))

theorem erases_done {Q : α → β → Prop} {a : α} {b : β} (related : Q a b) :
    (.done a : Prog C R α).Erases hidden A ok Q (.done b) :=
  ⟨b, rfl, related⟩

theorem erases_hidden {Q : α → β → Prop} {c : C} {k : R c → Prog C R α} {p' : Prog C R β} (hides : hidden c)
    (later : ∀ r, ok ⟨c, r⟩ → (k r).Erases hidden A ok Q p') :
    (Prog.call c k).Erases hidden A ok Q p' :=
  Or.inl ⟨hides, later⟩

theorem erases_call {Q : α → β → Prop} {c : C} {k : R c → Prog C R α} {k' : R c → Prog C R β} (kind : A c)
    (later : ∀ r, ok ⟨c, r⟩ → (k r).Erases hidden A ok Q (k' r)) :
    (Prog.call c k).Erases hidden A ok Q (.call c k') :=
  Or.inr ⟨kind, k', rfl, later⟩

theorem Erases.mono {Q Q' : α → β → Prop} {p : Prog C R α} {p' : Prog C R β}
    (erases : p.Erases hidden A ok Q p') (weaker : ∀ a b, Q a b → Q' a b) :
    p.Erases hidden A ok Q' p' := by
  induction p generalizing p' with
  | done a =>
    obtain ⟨b, at_, related⟩ := erases
    exact ⟨b, at_, weaker a b related⟩
  | trap => exact erases
  | spin => trivial
  | call c k ih =>
    rcases erases with ⟨hides, later⟩ | ⟨kind, k', at_, later⟩
    · exact Or.inl ⟨hides, fun r admitted => ih r (later r admitted)⟩
    · exact Or.inr ⟨kind, k', at_, fun r admitted => ih r (later r admitted)⟩

theorem erases_bind {Q : α → α' → Prop} {Q' : β → β' → Prop} {p : Prog C R α} {p' : Prog C R α'}
    {f : α → Prog C R β} {f' : α' → Prog C R β'} (first : p.Erases hidden A ok Q p')
    (rest : ∀ a a', Q a a' → (f a).Erases hidden A ok Q' (f' a')) :
    (p >>= f).Erases hidden A ok Q' (p' >>= f') := by
  induction p generalizing p' with
  | done a =>
    obtain ⟨b, rfl, related⟩ := first
    exact rest a b related
  | trap =>
    cases (show p' = .trap from first)
    exact (rfl : (.trap : Prog C R β') = .trap)
  | spin => trivial
  | call c k ih =>
    rcases first with ⟨hides, later⟩ | ⟨kind, k', rfl, later⟩
    · exact Or.inl ⟨hides, fun r admitted => ih r (later r admitted)⟩
    · exact Or.inr ⟨kind, _, rfl, fun r admitted => ih r (later r admitted)⟩

/-- A program without hidden calls agrees with itself. -/
theorem erases_self {p : Prog C R α} (only : p.Only A) : p.Erases hidden A ok Eq p := by
  induction p with
  | done a => exact ⟨a, rfl, rfl⟩
  | trap => exact (rfl : (.trap : Prog C R α) = .trap)
  | spin => trivial
  | call c k ih => exact Or.inr ⟨only.1, k, rfl, fun r _ => ih r (only.2 r)⟩

end Prog

variable {ι : Type y} [DecidableEq ι] {C : Type u} {R : C → Type v} {σ : Type x} {σ' : Type x'} {α β : Type w}
  {S : Parties ι C R σ α} {S' : Parties ι C R σ' β} {hidden A : C → Prop} {fits ok : Event C R → Prop}
  {Q : ι → α → β → Prop} {I : σ → Prop} {strip : σ → σ'}

/-- The second system sees the stripped state. Hidden calls change nothing that
it could not have changed by itself, all others have the same outcome, and the
programs that the parties are given agree. -/
structure Erasing (S : Parties ι C R σ α) (S' : Parties ι C R σ' β) (hidden A : C → Prop)
    (fits ok : Event C R → Prop) (Q : ι → α → β → Prop) (I : σ → Prop) (strip : σ → σ') : Prop where
  apart : ∀ c, A c → ¬hidden c
  hid : ∀ i c σ₁, I σ₁ → hidden c → fits ⟨c, (S.exec i c σ₁).1⟩ →
    ok ⟨c, (S.exec i c σ₁).1⟩ ∧ I (S.exec i c σ₁).2 ∧ S'.env (strip σ₁) (strip (S.exec i c σ₁).2)
  seen : ∀ i c σ₁, I σ₁ → A c → fits ⟨c, (S.exec i c σ₁).1⟩ →
    ok ⟨c, (S.exec i c σ₁).1⟩ ∧ I (S.exec i c σ₁).2 ∧
      S'.exec i c (strip σ₁) = ((S.exec i c σ₁).1, strip (S.exec i c σ₁).2)
  resume : ∀ i a b t t' p, Q i a b → S.resume i a t p →
    ∃ p', S'.resume i b t' p' ∧ p.Erases hidden A ok (Q i) p'
  env : ∀ σ₁ σ₂, I σ₁ → S.env σ₁ σ₂ → I σ₂ ∧ S'.env (strip σ₁) (strip σ₂)

/-- The calls of a trace that are not hidden. -/
def visible (hidden : C → Prop) [DecidablePred hidden] (t : List (ι × Event C R)) : List (ι × Event C R) :=
  t.filter fun e => ¬hidden e.2.1

/-- The second configuration is the first without what is hidden. -/
structure Erased (hidden A : C → Prop) [DecidablePred hidden] (ok : Event C R → Prop) (Q : ι → α → β → Prop)
    (strip : σ → σ') (s : Config ι C R σ α) (s' : Config ι C R σ' β) : Prop where
  shared : s'.shared = strip s.shared
  trace : s'.trace = visible hidden s.trace
  procs : ∀ i, (s.procs i).Erases hidden A ok (Q i) (s'.procs i)

variable [DecidablePred hidden]

/-- The rule of erasure: as long as all calls fit, a run of the first system
without its hidden calls is one of the second. -/
theorem Reach.erased (erasing : Erasing S S' hidden A fits ok Q I strip)
    {init s : Config ι C R σ α} {init' : Config ι C R σ' β} (inv : I init.shared)
    (start : Erased hidden A ok Q strip init init') (reach : Reach S anyStep init s)
    (fitting : ∀ e ∈ s.trace, fits e.2) :
    I s.shared ∧ ∃ s', Reach S' anyStep init' s' ∧ Erased hidden A ok Q strip s s' := by
  induction reach with
  | start => exact ⟨inv, init', .start, start⟩
  | @next s s₁ reach step _ ih =>
    cases step with
    | @call i c k at_ =>
      obtain ⟨inv, s', reach', erased⟩ := ih fun e member => fitting e (List.mem_append_left _ member)
      have last := fitting _ (List.mem_append_right _ (List.mem_singleton_self _))
      have here := erased.procs i
      rw [at_] at here
      rcases here with ⟨hides, later⟩ | ⟨kind, k', at', later⟩
      · obtain ⟨admitted, kept, moved⟩ := erasing.hid i c s.shared inv hides last
        rw [← erased.shared] at moved
        refine ⟨kept, _, .next reach' (.env moved) trivial, rfl, ?_, fun j => ?_⟩
        · simp only [visible, Config.called, List.filter_append, List.filter_singleton, hides,
            not_true_eq_false, decide_false, cond_false, List.append_nil]
          exact erased.trace
        · by_cases same : j = i
          · subst same
            simpa only [Config.called, Function.update_self] using later _ admitted
          · simpa only [Config.called, Function.update_of_ne same] using erased.procs j
      · obtain ⟨admitted, kept, same_⟩ := erasing.seen i c s.shared inv kind last
        rw [← erased.shared] at same_
        refine ⟨kept, _, .next reach' (.call at') trivial, ?_, ?_, fun j => ?_⟩
        · simp only [Config.called, same_]
        · simp only [visible, Config.called, List.filter_append, List.filter_singleton, erasing.apart c kind,
            not_false_eq_true, decide_true, cond_true, same_]
          exact congrArg (· ++ _) erased.trace
        · by_cases same : j = i
          · subst same
            simpa only [Config.called, Function.update_self, same_] using later _ admitted
          · simpa only [Config.called, Function.update_of_ne same] using erased.procs j
    | @resume i a p at_ given =>
      obtain ⟨inv, s', reach', erased⟩ := ih fitting
      have here := erased.procs i
      rw [at_] at here
      obtain ⟨b, at', related⟩ := here
      obtain ⟨p', given', agree⟩ := erasing.resume i a b _ s'.trace p related given
      refine ⟨inv, _, .next reach' (.resume at' given') trivial, erased.shared, erased.trace, fun j => ?_⟩
      by_cases same : j = i
      · subst same
        simpa only [Config.resumed, Function.update_self] using agree
      · simpa only [Config.resumed, Function.update_of_ne same] using erased.procs j
    | env moved =>
      obtain ⟨inv, s', reach', erased⟩ := ih fitting
      obtain ⟨kept, moved'⟩ := erasing.env s.shared _ inv moved
      rw [← erased.shared] at moved'
      exact ⟨kept, _, .next reach' (.env moved') trivial, rfl, erased.trace, erased.procs⟩

end Interaction
