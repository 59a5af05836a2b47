import ThreescaleCache.Interaction.Interleave

namespace Interaction
universe u v w x y

/-! One party at work while all others pause. -/

variable {ι : Type y} [DecidableEq ι] {C : Type u} {R : C → Type v} {σ : Type x} {α : Type w}
  {S : Parties ι C R σ α} {init s : Config ι C R σ α}

/-- The configuration after party `i` alone has made the calls `t`. -/
def Config.ran (s : Config ι C R σ α) (i : ι) (t : List (Event C R)) (p : Prog C R α) (shared : σ) :
    Config ι C R σ α where
  shared := shared
  procs := Function.update s.procs i p
  trace := s.trace ++ t.map fun e => (i, e)

theorem Config.ran_called (s : Config ι C R σ α) (i : ι) (c : C) (k : R c → Prog C R α)
    (t : List (Event C R)) (p : Prog C R α) (shared : σ) :
    (s.called S i c k).ran i t p shared = s.ran i (⟨c, (S.exec i c s.shared).1⟩ :: t) p shared := by
  simp only [Config.ran, Config.called, Function.update_idem, List.map_cons, List.append_assoc,
    List.cons_append, List.nil_append]

/-- A program of a party may run to its end without any other step between its calls. -/
theorem Reach.ran (reach : Reach S anyStep init s) {i : ι} {p : Prog C R α} (at_ : s.procs i = p) :
    Reach S anyStep init (s.ran i (p.run (S.exec i) s.shared).trace (p.run (S.exec i) s.shared).rest
      (p.run (S.exec i) s.shared).state) := by
  induction p generalizing s with
  | done | trap | spin =>
    have same : s.ran i [] (s.procs i) s.shared = s := by
      simp only [Config.ran, Function.update_eq_self, List.map_nil, List.append_nil]
    rw [at_] at same
    exact same.symm ▸ reach
  | call c k ih =>
    have later := ih _ (.next reach (.call at_) trivial) (Function.update_self ..)
    rw [Config.ran_called] at later
    exact later

namespace Prog
variable {exec : (c : C) → σ → R c × σ}

/-- A run never stops before a call. -/
theorem run_stops (p : Prog C R α) (s : σ) (c : C) (k : R c → Prog C R α) :
    (p.run exec s).rest ≠ .call c k := by
  induction p generalizing s with
  | done | trap | spin => rintro ⟨⟩
  | call c' k' ih => exact ih _ _

/-- A program that goes on until it returns has returned after its run. -/
theorem Returns.run {ok : Event C R → Prop} {p : Prog C R α} {s : σ} (returns : p.Returns ok)
    (admitted : ∀ e ∈ (p.run exec s).trace, ok e) : ∃ a, (p.run exec s).rest = .done a := by
  obtain ⟨noTrap, noSpin⟩ := returns.path (run_path exec p s) admitted
  cases at_ : (p.run exec s).rest with
  | done a => exact ⟨a, rfl⟩
  | trap => exact absurd at_ noTrap
  | spin => exact absurd at_ noSpin
  | call c k => exact absurd at_ (run_stops p s c k)

end Prog
end Interaction
