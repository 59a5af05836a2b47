import ThreescaleCache.Interaction.Interleave

namespace Interaction
universe u v w x y

namespace Prog
variable {C : Type u} {R : C → Type v} {α β : Type w} {A A' B : C → Prop} {ok ok' : Event C R → Prop}

/-- With replies that `ok` admits, the program makes only calls of the kind `A`,
is never aborted, and returns only what `Q` holds of. -/
def Safe (A : C → Prop) (ok : Event C R → Prop) (Q : α → Prop) : Prog C R α → Prop
  | .done a => Q a
  | .trap => False
  | .spin => True
  | .call c k => A c ∧ ∀ r, ok ⟨c, r⟩ → Safe A ok Q (k r)

theorem Safe.mono {Q Q' : α → Prop} {p : Prog C R α} (safe : p.Safe A ok Q) (weaker : ∀ a, Q a → Q' a) :
    p.Safe A ok Q' := by
  induction p with
  | done a => exact weaker a safe
  | trap => exact safe
  | spin => trivial
  | call c k ih => exact ⟨safe.1, fun r admitted => ih r (safe.2 r admitted)⟩

theorem safe_bind {Q : α → Prop} {Q' : β → Prop} {p : Prog C R α} {f : α → Prog C R β}
    (first : p.Safe A ok Q) (rest : ∀ a, Q a → (f a).Safe A ok Q') : (p >>= f).Safe A ok Q' := by
  induction p with
  | done a => exact rest a first
  | trap => exact first
  | spin => trivial
  | call c k ih => exact ⟨first.1, fun r admitted => ih r (first.2 r admitted)⟩

theorem Only.and {p : Prog C R α} (only : p.Only A) (only' : p.Only A') : p.Only fun c => A c ∧ A' c := by
  induction p with
  | done | trap | spin => trivial
  | call c k ih => exact ⟨⟨only.1, only'.1⟩, fun r => ih r (only.2 r) (only'.2 r)⟩

/-- A program that returns whatever its calls are replied. -/
theorem safe_of_returns {p : Prog C R α} (returns : p.Returns ok') (only : p.Only B) (kind : ∀ c, B c → A c)
    (fewer : ∀ e, B e.1 → ok e → ok' e) : p.Safe A ok fun _ => True := by
  induction p with
  | done | spin => trivial
  | trap => exact returns
  | call c k ih =>
    exact ⟨kind c only.1, fun r admitted => ih r (returns r (fewer ⟨c, r⟩ only.1 admitted)) (only.2 r)⟩

/-- What holds of all that is returned may be added. -/
theorem Safe.returning {Q Q' : α → Prop} {p : Prog C R α} (safe : p.Safe A ok Q)
    (returning : ∀ t a, Path p t (.done a) → Q' a) : p.Safe A ok fun a => Q a ∧ Q' a := by
  induction p with
  | done a => exact ⟨safe, returning [] a .start⟩
  | trap => exact safe
  | spin => trivial
  | call c k ih =>
    exact ⟨safe.1, fun r admitted => ih r (safe.2 r admitted) fun t a path => returning _ a (.next path)⟩

theorem Safe.noTrap {Q : α → Prop} {p : Prog C R α} (safe : p.Safe A ok Q) : p ≠ .trap := by
  rintro rfl
  exact safe

end Prog

variable {ι : Type y} [DecidableEq ι] {C : Type u} {R : C → Type v} {σ : Type x} {α : Type w}
  {S : Parties ι C R σ α} {A : C → Prop} {fits ok : Event C R → Prop} {Q : ι → α → Prop} {I : σ → Prop}

/-- The state keeps `I` under all calls of the kind `A` that fit, and answers
them with replies that `ok` admits; the parties are only given safe programs. -/
structure Guarded (S : Parties ι C R σ α) (A : C → Prop) (fits ok : Event C R → Prop) (Q : ι → α → Prop)
    (I : σ → Prop) : Prop where
  call : ∀ i c σ₁, I σ₁ → A c → fits ⟨c, (S.exec i c σ₁).1⟩ →
    ok ⟨c, (S.exec i c σ₁).1⟩ ∧ I (S.exec i c σ₁).2
  resume : ∀ i a t p, Q i a → S.resume i a t p → p.Safe A ok (Q i)
  env : ∀ σ₁ σ₂, I σ₁ → S.env σ₁ σ₂ → I σ₂

/-- The rule of safety: as long as all calls fit, no party is aborted. -/
theorem Reach.safe (guarded : Guarded S A fits ok Q I) {guard : Config ι C R σ α → Config ι C R σ α → Prop}
    {init s : Config ι C R σ α} (start : I init.shared) (programs : ∀ i, (init.procs i).Safe A ok (Q i))
    (reach : Reach S guard init s) (fitting : ∀ e ∈ s.trace, fits e.2) :
    I s.shared ∧ ∀ i, (s.procs i).Safe A ok (Q i) := by
  induction reach with
  | start => exact ⟨start, programs⟩
  | @next s s' reach step _ ih =>
    cases step with
    | @call i c k at_ =>
      obtain ⟨inv, safe⟩ := ih fun e member => fitting e (List.mem_append_left _ member)
      have here := safe i
      rw [at_] at here
      have last := fitting _ (List.mem_append_right _ (List.mem_singleton_self _))
      obtain ⟨admitted, kept⟩ := guarded.call i c s.shared inv here.1 last
      refine ⟨kept, fun j => ?_⟩
      by_cases same : j = i
      · subst same
        simpa only [Config.called, Function.update_self] using here.2 _ admitted
      · simpa only [Config.called, Function.update_of_ne same] using safe j
    | @resume i a p at_ given =>
      obtain ⟨inv, safe⟩ := ih fitting
      have here := safe i
      rw [at_] at here
      refine ⟨inv, fun j => ?_⟩
      by_cases same : j = i
      · subst same
        simpa only [Config.resumed, Function.update_self] using guarded.resume j a _ p here given
      · simpa only [Config.resumed, Function.update_of_ne same] using safe j
    | env moved =>
      obtain ⟨inv, safe⟩ := ih fitting
      exact ⟨guarded.env s.shared _ inv moved, safe⟩

end Interaction
