import Mathlib.Tactic.IntervalCases
import ThreescaleCache.SharedCache
import ThreescaleCache.UniqueCallout

namespace ThreescaleCache

/-! The entries of shared data, and where their keys meet. -/

section Joined
variable {α : Type}

/-- Two pairs of lists that differ by where one joined list is cut at a
separator. -/
def Shifted (sep : α) (s a s' a' : List α) : Prop :=
  (∃ t, s' = s ++ sep :: t ∧ a = t ++ sep :: a') ∨ ∃ t, s = s' ++ sep :: t ∧ a' = t ++ sep :: a

theorem Shifted.symm {sep : α} {s a s' a' : List α} (shifted : Shifted sep s a s' a') :
    Shifted sep s' a' s a := Or.symm shifted

/-- Joined lists are equal only if their parts are, or are cut elsewhere. -/
theorem joined_eq_iff {sep : α} {s a s' a' : List α} :
    s ++ sep :: a = s' ++ sep :: a' ↔ (s = s' ∧ a = a') ∨ Shifted sep s a s' a' := by
  constructor
  · intro same
    rcases List.append_eq_append_iff.mp same with ⟨t, longer, rest⟩ | ⟨t, longer, rest⟩
    · cases t with
      | nil =>
        rw [List.append_nil] at longer
        exact Or.inl ⟨longer.symm, (List.cons.inj rest).2⟩
      | cons first t =>
        obtain ⟨rfl, tail⟩ := List.cons.inj rest
        exact Or.inr (Or.inl ⟨t, longer, tail⟩)
    · cases t with
      | nil =>
        rw [List.append_nil] at longer
        exact Or.inl ⟨longer, (List.cons.inj rest).2.symm⟩
      | cons first t =>
        obtain ⟨rfl, tail⟩ := List.cons.inj rest
        exact Or.inr (Or.inr ⟨t, longer, tail⟩)
  · rintro (⟨rfl, rfl⟩ | ⟨t, rfl, rfl⟩ | ⟨t, rfl, rfl⟩)
    · rfl
    · simp only [List.append_assoc, List.cons_append]
    · simp only [List.append_assoc, List.cons_append]

end Joined

/-- The four families of entries of shared data. The lock is that of a request
by app_id or by user_key. -/
inductive CacheEntry where
  | mapping (serviceId : ServiceId) (userKey : UserKey)
  | application (serviceId : ServiceId) (appId : AppId)
  | calloutLock (serviceId : ServiceId) (identifier : Str)
  | memoryCounter
deriving DecidableEq

/-- The key that an entry is stored under. -/
def CacheEntry.key : CacheEntry → Str
  | .mapping _ userKey => userKey
  | .application serviceId appId => CacheKey.asString ⟨serviceId, .appId appId none⟩
  | .calloutLock serviceId identifier => calloutLockKey ⟨serviceId, .appId identifier none⟩
  | .memoryCounter => sharedMemoryCounterKey

/-- How an entry of one family meets one of the same or a later family: the
strings for which the two keys are one. -/
def Meets : CacheEntry → CacheEntry → Prop
  | .mapping _ u, .mapping _ u' => u = u'
  | .mapping _ u, .application s a => u = s ++ '_' :: a
  | .mapping _ u, .calloutLock s i => u = "CL_".toList ++ (s ++ '_' :: i)
  | .mapping _ u, .memoryCounter => u = "SHARED_MEMORY_COUNTER".toList
  | .application s a, .application s' a' => Shifted '_' s a s' a'
  | .application s a, .calloutLock s' i => (s = "CL".toList ∧ a = s' ++ '_' :: i) ∨
      ∃ t, s = "CL_".toList ++ t ∧ ((t = s' ∧ a = i) ∨ Shifted '_' t a s' i)
  | .application s a, .memoryCounter => (s = "SHARED".toList ∧ a = "MEMORY_COUNTER".toList) ∨
      (s = "SHARED_MEMORY".toList ∧ a = "COUNTER".toList)
  | .calloutLock s i, .calloutLock s' i' => Shifted '_' s i s' i'
  | _, _ => False

/-- Two entries that share one key. -/
def Collide (e e' : CacheEntry) : Prop := Meets e e' ∨ Meets e' e

theorem key_application_lock {s a s' i : Str} :
    (CacheEntry.application s a).key = (CacheEntry.calloutLock s' i).key ↔
      Meets (.application s a) (.calloutLock s' i) := by
  have lock : (CacheEntry.calloutLock s' i).key = "CL".toList ++ '_' :: (s' ++ '_' :: i) := rfl
  have application : (CacheEntry.application s a).key = s ++ '_' :: a := rfl
  rw [lock, application, joined_eq_iff]
  refine or_congr_right ?_
  constructor
  · rintro (⟨t, cut, _⟩ | ⟨t, longer, rest⟩)
    · have inside : '_' ∈ "CL".toList := by
        rw [cut]
        exact List.mem_append_right s List.mem_cons_self
      exact absurd inside (by decide)
    · refine ⟨t, longer, ?_⟩
      rcases joined_eq_iff.mp rest with ⟨rfl, rfl⟩ | shifted
      · exact Or.inl ⟨rfl, rfl⟩
      · exact Or.inr shifted.symm
  · rintro ⟨t, longer, same⟩
    refine Or.inr ⟨t, longer, joined_eq_iff.mpr ?_⟩
    rcases same with ⟨rfl, rfl⟩ | shifted
    · exact Or.inl ⟨rfl, rfl⟩
    · exact Or.inr shifted.symm

/-- The places where the key of the counter can be cut. -/
theorem cut_memoryCounterKey (n : Nat) (inside : n < 21)
    (cut : sharedMemoryCounterKey[n]? = some '_') : n = 6 ∨ n = 13 := by
  have all : ∀ n < 21, sharedMemoryCounterKey[n]? = some '_' → n = 6 ∨ n = 13 := by decide
  exact all n inside cut

theorem key_application_counter {s a : Str} :
    (CacheEntry.application s a).key = CacheEntry.memoryCounter.key ↔
      Meets (.application s a) .memoryCounter := by
  constructor
  · intro same
    have joined : s ++ '_' :: a = sharedMemoryCounterKey := same
    have length : sharedMemoryCounterKey.length = 21 := by decide
    have inside : s.length < 21 := by
      rw [← length, ← joined, List.length_append, List.length_cons]
      omega
    have here : sharedMemoryCounterKey[s.length]? = some '_' := by
      rw [← joined, List.getElem?_append_right (Nat.le_refl _), Nat.sub_self]
      rfl
    have parts : s = sharedMemoryCounterKey.take s.length ∧ a = sharedMemoryCounterKey.drop (s.length + 1) := by
      rw [← joined]
      simp
    rcases cut_memoryCounterKey s.length inside here with at_ | at_
    · rw [at_] at parts
      exact Or.inl parts
    · rw [at_] at parts
      exact Or.inr parts
  · rintro (⟨rfl, rfl⟩ | ⟨rfl, rfl⟩)
    · rfl
    · rfl

theorem key_lock_counter {s i : Str} : (CacheEntry.calloutLock s i).key ≠ CacheEntry.memoryCounter.key := by
  intro same
  have heads := congrArg List.head? same
  cases heads

theorem key_mapping (s : ServiceId) (u : UserKey) (e : CacheEntry) :
    (CacheEntry.mapping s u).key = e.key ↔ Meets (.mapping s u) e := by
  cases e <;> exact Iff.rfl

theorem key_application {s a s' a' : Str} (different : CacheEntry.application s a ≠ .application s' a') :
    (CacheEntry.application s a).key = (CacheEntry.application s' a').key ↔ Shifted '_' s a s' a' := by
  refine joined_eq_iff.trans (or_iff_right ?_)
  rintro ⟨rfl, rfl⟩
  exact different rfl

theorem key_lock {s i s' i' : Str} (different : CacheEntry.calloutLock s i ≠ .calloutLock s' i') :
    (CacheEntry.calloutLock s i).key = (CacheEntry.calloutLock s' i').key ↔ Shifted '_' s i s' i' := by
  refine (List.append_right_inj _).trans (joined_eq_iff.trans (or_iff_right ?_))
  rintro ⟨rfl, rfl⟩
  exact different rfl

theorem key_of_meets {e e' : CacheEntry} (different : e ≠ e') (meets : Meets e e') : e.key = e'.key := by
  cases e with
  | mapping s u => exact (key_mapping s u e').mpr meets
  | application s a =>
    cases e' with
    | mapping => exact meets.elim
    | application => exact (key_application different).mpr meets
    | calloutLock => exact key_application_lock.mpr meets
    | memoryCounter => exact key_application_counter.mpr meets
  | calloutLock s i =>
    cases e' with
    | calloutLock => exact (key_lock different).mpr meets
    | mapping | application | memoryCounter => exact meets.elim
  | memoryCounter => cases e' <;> exact meets.elim

/-- Different entries have one key exactly if they collide. -/
theorem key_eq_iff {e e' : CacheEntry} (different : e ≠ e') : e.key = e'.key ↔ Collide e e' := by
  constructor
  · intro same
    cases e with
    | mapping s u => exact Or.inl ((key_mapping s u e').mp same)
    | application s a =>
      cases e' with
      | mapping s' u => exact Or.inr ((key_mapping s' u _).mp same.symm)
      | application => exact Or.inl ((key_application different).mp same)
      | calloutLock => exact Or.inl (key_application_lock.mp same)
      | memoryCounter => exact Or.inl (key_application_counter.mp same)
    | calloutLock s i =>
      cases e' with
      | mapping s' u => exact Or.inr ((key_mapping s' u _).mp same.symm)
      | application => exact Or.inr (key_application_lock.mp same.symm)
      | calloutLock => exact Or.inl ((key_lock different).mp same)
      | memoryCounter => exact absurd same key_lock_counter
    | memoryCounter =>
      cases e' with
      | mapping s' u => exact Or.inr ((key_mapping s' u _).mp same.symm)
      | application => exact Or.inr (key_application_counter.mp same.symm)
      | calloutLock => exact absurd same.symm key_lock_counter
      | memoryCounter => exact absurd rfl different
  · rintro (meets | meets)
    · exact key_of_meets different meets
    · exact (key_of_meets different.symm meets).symm

end ThreescaleCache
