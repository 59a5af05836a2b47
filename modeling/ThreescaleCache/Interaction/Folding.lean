import ThreescaleCache.Interaction.Follows

namespace Interaction
universe u v w x

variable {C : Type u} {R : C → Type v} {L : Type x} {α : Type w}

open Classical in
/-- The protocol of a party whose knowledge is folded from its calls. Replies
that are not admitted are those that the party relies on never getting. -/
noncomputable def folding (step : L → Event C R → L) (admits : Event C R → Prop)
    (may : L → C → Prop) : Protocol C R L where
  may := may
  next := fun ℓ c r => if admits ⟨c, r⟩ then some (step ℓ ⟨c, r⟩) else none

variable {step : L → Event C R → L} {admits : Event C R → Prop} {may : L → C → Prop}

theorem folding_next {ℓ ℓ' : L} {c : C} {r : R c} :
    (folding step admits may).next ℓ c r = some ℓ' ↔ admits ⟨c, r⟩ ∧ ℓ' = step ℓ ⟨c, r⟩ := by
  unfold folding
  by_cases admitted : admits ⟨c, r⟩
  · simp only [admitted, if_true, Option.some.injEq, true_and]
    exact eq_comm
  · simp only [admitted, if_false, reduceCtorEq, false_and]

theorem folding_track {ℓ ℓ' : L} {t : List (Event C R)} :
    (folding step admits may).track ℓ t = some ℓ' ↔ (∀ e ∈ t, admits e) ∧ ℓ' = t.foldl step ℓ := by
  induction t generalizing ℓ with
  | nil => simp [Protocol.track, eq_comm]
  | cons e t ih =>
    simp only [Protocol.track, Option.bind_eq_some_iff, folding_next, ih, List.foldl_cons,
      List.mem_cons, forall_eq_or_imp]
    constructor
    · intro fact
      obtain ⟨_, ⟨first, rfl⟩, rest, same⟩ := fact
      exact ⟨⟨first, rest⟩, same⟩
    · intro fact
      obtain ⟨⟨first, rest⟩, same⟩ := fact
      exact ⟨_, ⟨first, rfl⟩, rest, same⟩

/-- What following such a protocol says of the paths. -/
theorem follows_folding_iff {Q : L → α → Prop} {p : Prog C R α} {ℓ : L} [∀ c, Nonempty (R c)] :
    Follows (folding step admits may) Q p ℓ ↔ ∀ t q, Prog.Path p t q →
      (∀ before c r after, t = before ++ ⟨c, r⟩ :: after → (∀ e ∈ before, admits e) →
        may (before.foldl step ℓ) c) ∧
      ∀ a, q = .done a → (∀ e ∈ t, admits e) → Q (t.foldl step ℓ) a := by
  rw [follows_iff_paths]
  refine forall₂_congr fun t q => imp_congr_right fun _ => and_congr ?_ ?_
  · constructor
    · intro allows before c r after split admitted
      exact allows before c r after _ split (folding_track.mpr ⟨admitted, rfl⟩)
    · intro allows before c r after ℓ' split known
      obtain ⟨admitted, rfl⟩ := folding_track.mp known
      exact allows before c r after split admitted
  · constructor
    · intro result a same admitted
      exact result a _ same (folding_track.mpr ⟨admitted, rfl⟩)
    · intro result a ℓ' same known
      obtain ⟨admitted, rfl⟩ := folding_track.mp known
      exact result a same admitted

/-- What all allowed calls keep, a party that follows the protocol keeps. -/
theorem Follows.folded {I : L → Prop} {Q : L → α → Prop} {p q : Prog C R α} {ℓ : L} {t : List (Event C R)}
    (follows : Follows (folding step admits may) Q p ℓ) (path : Prog.Path p t q) (admitted : ∀ e ∈ t, admits e)
    (keeps : ∀ ℓ c r, may ℓ c → I ℓ → I (step ℓ ⟨c, r⟩)) (start : I ℓ) : I (t.foldl step ℓ) := by
  induction path generalizing ℓ with
  | start => exact start
  | @next c k r t q _ ih =>
    have now : admits ⟨c, r⟩ := admitted _ List.mem_cons_self
    have later : ∀ e ∈ t, admits e := fun e member => admitted e (List.mem_cons_of_mem _ member)
    exact ih (follows.2 r _ (folding_next.mpr ⟨now, rfl⟩)) later (keeps ℓ c r follows.1 start)

/-- What is known exactly since a call of the kind `A` is known after a list
of calls exactly if one of them is of the kind. -/
theorem foldl_known_iff (known : L → Prop) {A : Event C R → Prop}
    (learnt : ∀ ℓ e, known (step ℓ e) ↔ known ℓ ∨ A e) {ℓ : L} {t : List (Event C R)} :
    known (t.foldl step ℓ) ↔ known ℓ ∨ ∃ e ∈ t, A e := by
  induction t generalizing ℓ with
  | nil => simp
  | cons e t ih => simp only [List.foldl_cons, ih, learnt, List.mem_cons, exists_eq_or_imp, or_assoc]

/-- Calls that are always allowed and never take away what is known. -/
theorem folding_keeps {le : L → L → Prop} {A : C → Prop} (refl : ∀ ℓ, le ℓ ℓ)
    (trans : ∀ {ℓ₁ ℓ₂ ℓ₃}, le ℓ₁ ℓ₂ → le ℓ₂ ℓ₃ → le ℓ₁ ℓ₃) (allowed : ∀ ℓ c, A c → may ℓ c)
    (grows : ∀ ℓ c r, A c → le ℓ (step ℓ ⟨c, r⟩)) : (folding step admits may).Keeps le A where
  refl := refl
  trans := trans
  may := allowed
  next := by
    intro ℓ c r ℓ' a known
    rw [(folding_next.mp known).2]
    exact grows ℓ c r a

/-- The party that knows all its calls so far. -/
noncomputable def recording (may : List (Event C R) → C → Prop) : Protocol C R (List (Event C R)) :=
  folding (fun t e => t ++ [e]) (fun _ => True) may

theorem foldl_record (s t : List (Event C R)) : t.foldl (fun t e => t ++ [e]) s = s ++ t := by
  induction t generalizing s with
  | nil => exact (List.append_nil s).symm
  | cons e t ih => rw [List.foldl_cons, ih, List.append_assoc]; rfl

theorem recording_next {may : List (Event C R) → C → Prop} {t t' : List (Event C R)} {c : C} {r : R c} :
    (recording may).next t c r = some t' ↔ t' = t ++ [⟨c, r⟩] := by
  unfold recording
  rw [folding_next, true_and]

theorem follows_recording_iff {may : List (Event C R) → C → Prop} {Q : List (Event C R) → α → Prop}
    {p : Prog C R α} [∀ c, Nonempty (R c)] :
    Follows (recording may) Q p [] ↔ ∀ t q, Prog.Path p t q →
      (∀ before c r after, t = before ++ ⟨c, r⟩ :: after → may before c) ∧
      ∀ a, q = .done a → Q t a := by
  unfold recording
  rw [follows_folding_iff]
  simp only [foldl_record, List.nil_append, implies_true, forall_const]

theorem recording_keeps {may : List (Event C R) → C → Prop} {A : C → Prop}
    (allowed : ∀ t c, A c → may t c) : (recording may).Keeps (· <+: ·) A :=
  folding_keeps List.prefix_refl (fun first second => first.trans second) allowed
    fun t c r _ => List.prefix_append t [⟨c, r⟩]

end Interaction
