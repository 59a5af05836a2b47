import Mathlib.Logic.Function.Basic

namespace Interaction
universe u v w x

/-- A program that works on its environment by calls `c : C`, each answered
by a reply in `R c`. A `trap` aborts; `spin` is a loop cut off before its
next round, so that every program is a well-founded tree. -/
inductive Prog (C : Type u) (R : C → Type v) (α : Type w) where
  | done (a : α)
  | trap
  | spin
  | call (c : C) (k : R c → Prog C R α)

/-- One call with the reply it was given. -/
abbrev Event (C : Type u) (R : C → Type v) := (c : C) × R c

namespace Prog
variable {C : Type u} {R : C → Type v} {α β : Type w}

def bind : Prog C R α → (α → Prog C R β) → Prog C R β
  | .done a, f => f a
  | .trap, _ => .trap
  | .spin, _ => .spin
  | .call c k, f => .call c fun r => (k r).bind f

instance : Monad (Prog C R) where
  pure := .done
  bind := Prog.bind

/-- The program that makes one call and returns the reply. -/
def perform {C : Type u} {R : C → Type v} (c : C) : Prog C R (R c) := .call c .done

@[simp] theorem done_bind (a : α) (f : α → Prog C R β) : Prog.done a >>= f = f a := rfl

@[simp] theorem trap_bind (f : α → Prog C R β) : (Prog.trap : Prog C R α) >>= f = .trap := rfl

@[simp] theorem spin_bind (f : α → Prog C R β) : (Prog.spin : Prog C R α) >>= f = .spin := rfl

@[simp] theorem call_bind (c : C) (k : R c → Prog C R α) (f : α → Prog C R β) :
    Prog.call c k >>= f = .call c fun r => k r >>= f := rfl

/-- `Path p t q`: answered as `t` says, `p` has made the calls of `t` and
has `q` left to do. Nothing is assumed about the replies. -/
inductive Path : Prog C R α → List (Event C R) → Prog C R α → Prop
  | start {p} : Path p [] p
  | next {c k r t q} : Path (k r) t q → Path (.call c k) (⟨c, r⟩ :: t) q

theorem Path.append {p q q' : Prog C R α} {t t' : List (Event C R)}
    (first : Path p t q) (rest : Path q t' q') : Path p (t ++ t') q' := by
  induction first with
  | start => exact rest
  | next _ ih => exact .next (ih rest)

theorem Path.bind {p q : Prog C R α} {t : List (Event C R)} (path : Path p t q)
    (f : α → Prog C R β) : Path (p >>= f) t (q >>= f) := by
  induction path with
  | start => exact .start
  | next _ ih => exact .next ih

theorem Path.bind_done {p : Prog C R α} {f : α → Prog C R β} {t : List (Event C R)} {a : α}
    {q : Prog C R β} (path : Path p t (.done a)) (next : f a = q) : Path (p >>= f) t q :=
  next ▸ path.bind f

/-- A path of a sequence ends inside its first part, or has finished it. -/
theorem path_bind {p : Prog C R α} {f : α → Prog C R β} {t : List (Event C R)} {q : Prog C R β}
    (path : Path (p >>= f) t q) :
    (∃ p', Path p t p' ∧ q = p' >>= f) ∨
      ∃ t₁ t₂ a, t = t₁ ++ t₂ ∧ Path p t₁ (.done a) ∧ Path (f a) t₂ q := by
  induction p generalizing t with
  | done a => exact Or.inr ⟨[], t, a, rfl, .start, path⟩
  | trap | spin => cases path; exact Or.inl ⟨_, .start, rfl⟩
  | call c k ih =>
    cases path with
    | start => exact Or.inl ⟨_, .start, rfl⟩
    | @next _ _ r t q rest =>
      rcases ih r rest with ⟨p', inside, rfl⟩ | ⟨t₁, t₂, a, rfl, first, second⟩
      · exact Or.inl ⟨p', .next inside, rfl⟩
      · exact Or.inr ⟨⟨c, r⟩ :: t₁, t₂, a, rfl, .next first, second⟩

theorem path_bind_done {p : Prog C R α} {f : α → Prog C R β} {t : List (Event C R)} {b : β}
    (path : Path (p >>= f) t (.done b)) :
    ∃ t₁ t₂ a, t = t₁ ++ t₂ ∧ Path p t₁ (.done a) ∧ Path (f a) t₂ (.done b) := by
  rcases path_bind path with ⟨p', inside, same⟩ | split
  · cases p' with
    | done a => exact ⟨t, [], a, by simp, inside, by rw [same]; exact .start⟩
    | trap | spin | call => cases same
  · exact split

/-- What a program has returned, if it has nothing left to do. -/
def result : Prog C R α → Option α
  | .done a => some a
  | _ => none

/-- All calls that the program may come to make satisfy `A`. -/
def Only (A : C → Prop) : Prog C R α → Prop
  | .done _ => True
  | .trap => True
  | .spin => True
  | .call c k => A c ∧ ∀ r, Only A (k r)

theorem only_bind {A : C → Prop} {p : Prog C R α} {f : α → Prog C R β} (first : p.Only A)
    (rest : ∀ a, (f a).Only A) : (p >>= f).Only A := by
  induction p with
  | done a => exact rest a
  | trap | spin => trivial
  | call c k ih => exact ⟨first.1, fun r => ih r (first.2 r)⟩

theorem Only.mono {A A' : C → Prop} {p : Prog C R α} (only : p.Only A) (weaker : ∀ c, A c → A' c) :
    p.Only A' := by
  induction p with
  | done | trap | spin => trivial
  | call c k ih => exact ⟨weaker c only.1, fun r => ih r (only.2 r)⟩

theorem Only.path {A : C → Prop} {p q : Prog C R α} {t : List (Event C R)} (only : p.Only A)
    (path : Path p t q) : ∀ e ∈ t, A e.1 := by
  induction path with
  | start => simp
  | @next c k r t q rest ih =>
    intro e member
    rcases List.mem_cons.mp member with same | old
    · subst same
      exact only.1
    · exact ih (only.2 r) e old

theorem Only.rest {A : C → Prop} {p q : Prog C R α} {t : List (Event C R)} (only : p.Only A)
    (path : Path p t q) : q.Only A := by
  induction path with
  | start => exact only
  | next _ ih => exact ih (only.2 _)

/-- A sequence that is about to make a call that its first part never makes
has finished the first part. -/
theorem path_bind_past {A : C → Prop} {p : Prog C R α} {f : α → Prog C R β} {t : List (Event C R)}
    {c : C} {k : R c → Prog C R β} (only : p.Only A) (other : ¬A c)
    (path : Path (p >>= f) t (.call c k)) :
    ∃ t₁ t₂ a, t = t₁ ++ t₂ ∧ Path p t₁ (.done a) ∧ Path (f a) t₂ (.call c k) := by
  rcases path_bind path with ⟨p', inside, same⟩ | past
  · cases p' with
    | done a => exact ⟨t, [], a, (List.append_nil t).symm, inside, same ▸ .start⟩
    | trap | spin => cases same
    | call c' k' =>
      cases same
      exact absurd (only.rest inside).1 other
  · exact past

/-- With replies that `ok` admits the program goes on until it returns. -/
def Returns (ok : Event C R → Prop) : Prog C R α → Prop
  | .done _ => True
  | .trap => False
  | .spin => False
  | .call c k => ∀ r, ok ⟨c, r⟩ → Returns ok (k r)

theorem returns_bind {ok : Event C R → Prop} {p : Prog C R α} {f : α → Prog C R β}
    (first : p.Returns ok) (rest : ∀ a, (f a).Returns ok) : (p >>= f).Returns ok := by
  induction p with
  | done a => exact rest a
  | trap | spin => exact first.elim
  | call c k ih => exact fun r admitted => ih r (first r admitted)

theorem Returns.path {ok : Event C R → Prop} {p q : Prog C R α} {t : List (Event C R)}
    (returns : p.Returns ok) (path : Path p t q) (admitted : ∀ e ∈ t, ok e) :
    q ≠ .trap ∧ q ≠ .spin := by
  induction path with
  | @start p =>
    refine ⟨?_, ?_⟩
    · intro same
      exact (same ▸ returns : (trap : Prog C R α).Returns ok)
    · intro same
      exact (same ▸ returns : (spin : Prog C R α).Returns ok)
  | @next c k r t q _ ih =>
    exact ih (returns r (admitted _ List.mem_cons_self)) fun e member =>
      admitted e (List.mem_cons_of_mem _ member)

/-- What a run leaves: its calls, the program it stopped at and the state. -/
structure Ran (C : Type u) (R : C → Type v) (σ : Type x) (α : Type w) where
  trace : List (Event C R)
  rest : Prog C R α
  state : σ

/-- The run of a program alone against an environment with state `σ`. -/
def run {σ : Type x} (exec : (c : C) → σ → R c × σ) : Prog C R α → σ → Ran C R σ α
  | .done a, s => ⟨[], .done a, s⟩
  | .trap, s => ⟨[], .trap, s⟩
  | .spin, s => ⟨[], .spin, s⟩
  | .call c k, s =>
    let after := run exec (k (exec c s).1) (exec c s).2
    { after with trace := ⟨c, (exec c s).1⟩ :: after.trace }

theorem run_path {σ : Type x} (exec : (c : C) → σ → R c × σ) (p : Prog C R α) (s : σ) :
    Path p (run exec p s).trace (run exec p s).rest := by
  induction p generalizing s with
  | done | trap | spin => exact .start
  | call c k ih => exact .next (ih _ _)

/-- The run of a sequence whose first part returns. -/
theorem run_bind_done {σ : Type x} {exec : (c : C) → σ → R c × σ} {p : Prog C R α} {f : α → Prog C R β}
    {s s' : σ} {t : List (Event C R)} {a : α} (first : p.run exec s = ⟨t, .done a, s'⟩) :
    (p >>= f).run exec s = { (f a).run exec s' with trace := t ++ ((f a).run exec s').trace } := by
  induction p generalizing s t with
  | done b => cases first; rfl
  | trap | spin => cases first
  | call c k ih =>
    cases ran : (k (exec c s).1).run exec (exec c s).2 with
    | mk t' rest last =>
      simp only [run, ran, Ran.mk.injEq] at first
      obtain ⟨rfl, rfl, rfl⟩ := first
      simp only [call_bind, run, ih _ ran, List.cons_append]

/-- A run of a sequence that returns is one of its first part, and one of the rest. -/
theorem run_bind_inv {σ : Type x} {exec : (c : C) → σ → R c × σ} {p : Prog C R α} {f : α → Prog C R β}
    {s s' : σ} {t : List (Event C R)} {b : β} (ran : (p >>= f).run exec s = ⟨t, .done b, s'⟩) :
    ∃ t₁ t₂ a s₁, p.run exec s = ⟨t₁, .done a, s₁⟩ ∧ (f a).run exec s₁ = ⟨t₂, .done b, s'⟩ ∧ t = t₁ ++ t₂ := by
  induction p generalizing s t with
  | done a => exact ⟨[], t, a, s, rfl, ran, rfl⟩
  | trap | spin => cases ran
  | call c k ih =>
    cases later : (k (exec c s).1 >>= f).run exec (exec c s).2 with
    | mk t' rest last =>
      simp only [call_bind, run, later, Ran.mk.injEq] at ran
      obtain ⟨rfl, rfl, rfl⟩ := ran
      obtain ⟨t₁, t₂, a, s₁, first, second, rfl⟩ := ih _ later
      refine ⟨⟨c, (exec c s).1⟩ :: t₁, t₂, a, s₁, ?_, second, rfl⟩
      simp only [run, first]

end Prog
end Interaction
