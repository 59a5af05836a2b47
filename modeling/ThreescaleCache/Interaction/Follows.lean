import ThreescaleCache.Interaction.Prog

namespace Interaction
universe u v w x y

/-- What a party may call, and what it knows after each reply. `next` is
`none` on a reply that the party relies on never getting. -/
structure Protocol (C : Type u) (R : C → Type v) (L : Type x) where
  may : L → C → Prop
  next : L → (c : C) → R c → Option L

variable {C : Type u} {R : C → Type v} {L : Type x} {α β : Type w}

namespace Protocol

/-- The knowledge after a whole list of calls. -/
def track (P : Protocol C R L) : L → List (Event C R) → Option L
  | ℓ, [] => some ℓ
  | ℓ, e :: t => (P.next ℓ e.1 e.2).bind fun ℓ' => P.track ℓ' t

end Protocol

/-- `Follows P Q p ℓ`: starting with knowledge `ℓ`, the program `p` makes
only calls that `P` allows, and a result `a` is returned with knowledge `ℓ'`
only if `Q ℓ' a`. -/
def Follows (P : Protocol C R L) (Q : L → α → Prop) : Prog C R α → L → Prop
  | .done a, ℓ => Q ℓ a
  | .trap, _ => True
  | .spin, _ => True
  | .call c k, ℓ => P.may ℓ c ∧ ∀ r ℓ', P.next ℓ c r = some ℓ' → Follows P Q (k r) ℓ'

variable {P : Protocol C R L}

@[simp] theorem follows_done {Q : L → α → Prop} {a : α} {ℓ : L} :
    Follows P Q (.done a : Prog C R α) ℓ ↔ Q ℓ a := Iff.rfl

@[simp] theorem follows_pure {Q : L → α → Prop} {a : α} {ℓ : L} :
    Follows P Q (pure a : Prog C R α) ℓ ↔ Q ℓ a := Iff.rfl

@[simp] theorem follows_trap {Q : L → α → Prop} {ℓ : L} :
    Follows P Q (.trap : Prog C R α) ℓ := trivial

@[simp] theorem follows_spin {Q : L → α → Prop} {ℓ : L} :
    Follows P Q (.spin : Prog C R α) ℓ := trivial

theorem follows_call {Q : L → α → Prop} {c : C} {k : R c → Prog C R α} {ℓ : L} :
    Follows P Q (.call c k) ℓ ↔
      P.may ℓ c ∧ ∀ r ℓ', P.next ℓ c r = some ℓ' → Follows P Q (k r) ℓ' := Iff.rfl

/-- The rule of sequencing: the first part has to hand over what the second
part needs. -/
theorem follows_bind {Q : L → β → Prop} {p : Prog C R α} {f : α → Prog C R β} {ℓ : L} :
    Follows P Q (p >>= f) ℓ ↔ Follows P (fun ℓ' a => Follows P Q (f a) ℓ') p ℓ := by
  induction p generalizing ℓ with
  | done | trap | spin => exact Iff.rfl
  | call c k ih =>
    simp only [Prog.call_bind, follows_call]
    exact and_congr_right' (forall₂_congr fun r ℓ' => imp_congr_right fun _ => ih r)

theorem Follows.mono {Q Q' : L → α → Prop} {p : Prog C R α} {ℓ : L}
    (follows : Follows P Q p ℓ) (weaker : ∀ ℓ a, Q ℓ a → Q' ℓ a) : Follows P Q' p ℓ := by
  induction p generalizing ℓ with
  | done a => exact weaker ℓ a follows
  | trap | spin => trivial
  | call c k ih => exact ⟨follows.1, fun r ℓ' known => ih r (follows.2 r ℓ' known)⟩

/-- Calls that are always allowed and after which a party knows at least what
it knew before. -/
structure Protocol.Keeps (P : Protocol C R L) (le : L → L → Prop) (A : C → Prop) : Prop where
  refl : ∀ ℓ, le ℓ ℓ
  trans : ∀ {ℓ₁ ℓ₂ ℓ₃}, le ℓ₁ ℓ₂ → le ℓ₂ ℓ₃ → le ℓ₁ ℓ₃
  may : ∀ ℓ c, A c → P.may ℓ c
  next : ∀ ℓ c r ℓ', A c → P.next ℓ c r = some ℓ' → le ℓ ℓ'

theorem Protocol.Keeps.mono {le : L → L → Prop} {A A' : C → Prop} (keeps : P.Keeps le A)
    (fewer : ∀ c, A' c → A c) : P.Keeps le A' where
  refl := keeps.refl
  trans := keeps.trans
  may := fun ℓ c a => keeps.may ℓ c (fewer c a)
  next := fun ℓ c r ℓ' a => keeps.next ℓ c r ℓ' (fewer c a)

theorem Protocol.Keeps.follows {le : L → L → Prop} {A : C → Prop} (keeps : P.Keeps le A)
    {p : Prog C R α} (only : p.Only A) (ℓ : L) : Follows P (fun ℓ' _ => le ℓ ℓ') p ℓ := by
  induction p generalizing ℓ with
  | done a => exact keeps.refl ℓ
  | trap | spin => trivial
  | call c k ih =>
    refine ⟨keeps.may ℓ c only.1, fun r ℓ₁ known => ?_⟩
    refine (ih r (only.2 r) ℓ₁).mono fun ℓ₂ _ later => ?_
    exact keeps.trans (keeps.next ℓ c r ℓ₁ only.1 known) later

theorem Follows.path {Q : L → α → Prop} {p q : Prog C R α} {t : List (Event C R)} {ℓ ℓ' : L}
    (follows : Follows P Q p ℓ) (path : Prog.Path p t q) (known : P.track ℓ t = some ℓ') :
    Follows P Q q ℓ' := by
  induction path generalizing ℓ with
  | start => cases Option.some.inj known; exact follows
  | @next c k r t q rest ih =>
    obtain ⟨ℓ₁, first, later⟩ := Option.bind_eq_some_iff.mp known
    exact ih (follows.2 r ℓ₁ first) later

/-- Before each call of a path the program was about to make it. -/
theorem path_reaches {p q : Prog C R α} {before after : List (Event C R)} {c : C} {r : R c}
    (path : Prog.Path p (before ++ ⟨c, r⟩ :: after) q) :
    ∃ k, Prog.Path p before (.call c k) := by
  induction before generalizing p with
  | nil => cases path with | @next _ k _ _ _ _ => exact ⟨k, .start⟩
  | cons e before ih =>
    cases path with
    | next rest =>
      obtain ⟨k, here⟩ := ih rest
      exact ⟨k, .next here⟩

/-- A trace along which every call is allowed when it is made. -/
def Protocol.Allows (P : Protocol C R L) (ℓ : L) (t : List (Event C R)) : Prop :=
  ∀ before c r after ℓ', t = before ++ ⟨c, r⟩ :: after → P.track ℓ before = some ℓ' → P.may ℓ' c

theorem Protocol.Allows.head {ℓ : L} {c : C} {r : R c} {t : List (Event C R)}
    (allows : P.Allows ℓ (⟨c, r⟩ :: t)) : P.may ℓ c :=
  allows [] c r t ℓ rfl rfl

theorem Protocol.Allows.tail {ℓ ℓ' : L} {c : C} {r : R c} {t : List (Event C R)}
    (allows : P.Allows ℓ (⟨c, r⟩ :: t)) (known : P.next ℓ c r = some ℓ') : P.Allows ℓ' t := by
  intro before c' r' after ℓ₂ split later
  refine allows (⟨c, r⟩ :: before) c' r' after ℓ₂ (by rw [split]; rfl) ?_
  simp only [Protocol.track, known]
  exact later

/-- Following a protocol is a property of the paths: on all of them every
call is allowed, and every result satisfies the postcondition. -/
theorem follows_iff_paths {Q : L → α → Prop} {p : Prog C R α} {ℓ : L} [∀ c, Nonempty (R c)] :
    Follows P Q p ℓ ↔ ∀ t q, Prog.Path p t q → P.Allows ℓ t ∧
      ∀ a ℓ', q = .done a → P.track ℓ t = some ℓ' → Q ℓ' a := by
  constructor
  · intro follows t q path
    refine ⟨?_, ?_⟩
    · intro before c r after ℓ' split known
      subst split
      obtain ⟨k, here⟩ := path_reaches path
      exact (follows.path here known).1
    · intro a ℓ' same known
      subst same
      exact follows.path path known
  · intro paths
    induction p generalizing ℓ with
    | done a => exact (paths [] _ .start).2 a ℓ rfl rfl
    | trap | spin => trivial
    | call c k ih =>
      refine ⟨?_, ?_⟩
      · obtain ⟨r⟩ := ‹∀ c, Nonempty (R c)› c
        exact (paths [⟨c, r⟩] _ (.next .start)).1 [] c r [] ℓ rfl rfl
      · intro r ℓ' known
        refine ih r fun t q path => ?_
        obtain ⟨allowed, result⟩ := paths (⟨c, r⟩ :: t) q (.next path)
        refine ⟨?_, ?_⟩
        · intro before c' r' after ℓ₂ split later
          exact allowed (⟨c, r⟩ :: before) c' r' after ℓ₂ (by rw [split]; rfl)
            (by simp only [Protocol.track, known]; exact later)
        · intro a ℓ₂ same later
          exact result a ℓ₂ same (by simp only [Protocol.track, known]; exact later)

end Interaction
