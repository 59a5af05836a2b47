import Mathlib.Algebra.Ring.Int.Defs
import ThreescaleCache.CacheHitRules

namespace ThreescaleCache
open Interaction

/-! The filing of an application, whatever shared data reply. -/

/-- What a `Vec` can hold is exchanged with shared data: on a 32-bit target
no more than `isize::MAX` bytes. -/
def HeldByVec : HostEvent → Prop
  | ⟨.getSharedData _, .ok (some value, _)⟩ => value.len < 2 ^ 31
  | ⟨.setSharedData _ (some value) _, _⟩ => value.len < 2 ^ 31
  | _ => True

/-- What a counter of `used` bytes is after a change: as much as a `u64` holds, and
the initial size again where all of it would be given up. -/
def countedSize (used : Nat) (change : Int) : Int :=
  if change < 0 ∧ used + change ≤ 0 then sharedMemoryInitialSize.toNat else min (used + change) (2 ^ 64 - 1)

theorem saturatingAdd_toNat (a b : UInt64) : (saturatingAdd a b).toNat = min (a.toNat + b.toNat) (2 ^ 64 - 1) := by
  have boundA := a.toNat_lt
  have boundB := b.toNat_lt
  have most : (18446744073709551615 : UInt64).toNat = 2 ^ 64 - 1 := rfl
  unfold saturatingAdd
  split
  · rename_i fits
    rw [UInt64.le_iff_toNat_le, UInt64.toNat_add] at fits
    rw [UInt64.toNat_add]
    omega
  · rename_i wraps
    rw [UInt64.le_iff_toNat_le, UInt64.toNat_add] at wraps
    omega

/-- An update comes to the counted size. Only the least `i32` cannot be negated. -/
theorem finalSharedMemorySize_spec (used : UInt64) (delta : Int32) :
    (delta.toInt = -2 ^ 31 ∧ finalSharedMemorySize used delta = none) ∨
      (delta.toInt ≠ -2 ^ 31 ∧ ∃ size, finalSharedMemorySize used delta = some size ∧
        (size.toNat : Int) = countedSize used.toNat delta.toInt) := by
  have low := delta.le_toInt
  have high := delta.toInt_lt
  have bound := used.toNat_lt
  have zero : (0 : Int32).toInt = 0 := rfl
  unfold finalSharedMemorySize countedSize
  by_cases negative : delta < 0
  · have less : delta.toInt < 0 := by rwa [Int32.lt_iff_toInt_lt, zero] at negative
    rw [if_pos negative]
    by_cases least : delta.toInt = -2 ^ 31
    · have still : -delta < 0 := by
        rw [Int32.lt_iff_toInt_lt, Int32.toInt_neg, least]
        decide
      exact Or.inl ⟨least, if_pos still⟩
    · have negated : (-delta).toInt = -delta.toInt := by
        rw [Int32.toInt_neg]
        exact Int.bmod_eq_of_le (by omega) (by omega)
      have positive : ¬-delta < 0 := by
        rw [Int32.lt_iff_toInt_lt, negated]
        omega
      have removed : (-delta.toInt).toNat < 2 ^ 64 := by omega
      refine Or.inr ⟨least, ?_⟩
      rw [if_neg positive, negated]
      dsimp only
      by_cases all : used ≤ UInt64.ofNat (-delta.toInt).toNat
      · have none_ : used.toNat + delta.toInt ≤ 0 := by
          rw [UInt64.le_iff_toNat_le, UInt64.toNat_ofNat_of_lt' removed] at all
          omega
        rw [if_pos all, if_pos ⟨less, none_⟩]
        exact ⟨_, rfl, rfl⟩
      · have le : UInt64.ofNat (-delta.toInt).toNat ≤ used := UInt64.le_of_lt (UInt64.not_le.mp all)
        have some_ : ¬(used.toNat + delta.toInt ≤ 0) := by
          rw [UInt64.le_iff_toNat_le, UInt64.toNat_ofNat_of_lt' removed] at all
          omega
        rw [if_neg all, if_neg fun below => some_ below.2]
        refine ⟨_, rfl, ?_⟩
        rw [UInt64.toNat_sub_of_le _ _ le, UInt64.toNat_ofNat_of_lt' removed]
        omega
  · have grows : 0 ≤ delta.toInt := by
      rw [Int32.lt_iff_toInt_lt, zero] at negative
      omega
    have added : delta.toInt.toNat < 2 ^ 64 := by omega
    refine Or.inr ⟨by omega, ?_⟩
    rw [if_neg negative, if_neg fun below => absurd below.1 (by omega)]
    refine ⟨_, rfl, ?_⟩
    rw [saturatingAdd_toNat, UInt64.toNat_ofNat_of_lt' added]
    omega

theorem finalSharedMemorySize_some {delta : Int32} (memoryUsed : UInt64) (negates : delta ≠ Int32.minValue) :
    ∃ size, finalSharedMemorySize memoryUsed delta = some size := by
  rcases finalSharedMemorySize_spec memoryUsed delta with ⟨least, _⟩ | ⟨_, size, final, _⟩
  · exact absurd (Int32.toInt_inj.mp least) negates
  · exact ⟨size, final⟩

/-- The key's length cancels, whatever it is. -/
theorem memoryDelta_eq (size previous key : Nat) :
    Int32.ofNat key + Int32.ofNat size - Int32.ofNat (key + previous) = Int32.ofInt (size - previous) := by
  rw [Int32.ofInt_sub, Int32.ofInt_eq_ofNat, Int32.ofInt_eq_ofNat, Int32.ofNat_add]
  grind

/-- The difference of two sizes that a `Vec` can have is not the least `i32`. -/
theorem memoryDelta_negates {size previous key : Nat} (small : size < 2 ^ 31) (held : previous < 2 ^ 31) :
    Int32.ofNat key + Int32.ofNat size - Int32.ofNat (key + previous) ≠ Int32.minValue := by
  intro least
  have value := congrArg Int32.toInt ((memoryDelta_eq size previous key).symm.trans least)
  rw [Int32.toInt_ofInt_of_le (by omega) (by omega), Int32.toInt_minValue] at value
  omega

section
variable {delta : Int32} {key : Str} {app : Application} {cas : Nat}

theorem returns_writeSharedMemorySize (negates : delta ≠ Int32.minValue) (memoryUsed : UInt64) (cas : Nat) :
    (writeSharedMemorySize delta memoryUsed cas).Returns HeldByVec := by
  obtain ⟨size, final⟩ := finalSharedMemorySize_some memoryUsed negates
  unfold writeSharedMemorySize
  rw [final]
  intro r _
  cases r <;> trivial

theorem returns_updateSharedMemorySize (negates : delta ≠ Int32.minValue) :
    (updateSharedMemorySize delta).Returns HeldByVec := by
  intro r _
  match r with
  | .error e => trivial
  | .ok (some value, some cas) =>
    dsimp only [Prog.bind]
    cases value.counter with
    | none => trivial
    | some size => exact returns_writeSharedMemorySize negates size cas
  | .ok (some _, none) | .ok (none, _) =>
    intro r _
    cases r with
    | ok => exact returns_writeSharedMemorySize negates _ 1
    | error e => trivial

theorem returns_retryUpdateSharedMemorySize (negates : delta ≠ Int32.minValue) (tries : Nat) :
    (retryUpdateSharedMemorySize delta tries).Returns HeldByVec := by
  induction tries with
  | zero => trivial
  | succ tries ih =>
    refine Prog.returns_bind (returns_updateSharedMemorySize negates) fun r => ?_
    cases r with
    | ok => trivial
    | error e => exact ih

theorem returns_setApplicationToCache : (setApplicationToCache key app cas).Returns HeldByVec := by
  intro r held
  match r, held with
  | .error e, _ => trivial
  | .ok (some value, _), held =>
    intro reply size
    cases reply with
    | error e => trivial
    | ok =>
      show Prog.Returns HeldByVec (retryUpdateSharedMemorySize _ 3 >>= _)
      exact Prog.returns_bind (returns_retryUpdateSharedMemorySize (memoryDelta_negates size held) 3)
        fun _ => trivial
  | .ok (none, _), _ =>
    intro reply size
    have absent : (0 : Nat) < 2 ^ 31 := by decide
    cases reply with
    | error e => trivial
    | ok =>
      show Prog.Returns HeldByVec (retryUpdateSharedMemorySize _ 3 >>= _)
      exact Prog.returns_bind (returns_retryUpdateSharedMemorySize (memoryDelta_negates size absent) 3)
        fun _ => trivial

/-- Shared data are changed: a write is accepted. -/
def Changes : HostEvent → Prop
  | ⟨.setSharedData .., .ok ()⟩ => True
  | _ => False

/-- The only write of an application among these calls is that of `app` under
`key` with the CAS, and it is accepted. -/
def StoresOnce (key : Str) (app : Application) (cas : Nat) (t : List HostEvent) : Prop :=
  ∃ before after, t = before ++ ⟨.setSharedData key (some (.application app)) (some cas), .ok ()⟩ :: after ∧
    (∀ e ∈ before, ¬Changes e) ∧ ∀ e ∈ after, CounterCall e.1 ∨ ∃ result, e.1 = .limitChecked result

theorem StoresOnce.changes {t : List HostEvent} (stores : StoresOnce key app cas t) : ∃ e ∈ t, Changes e := by
  obtain ⟨before, after, rfl, _, _⟩ := stores
  exact ⟨_, List.mem_append_right _ List.mem_cons_self, trivial⟩

theorem StoresOnce.unique {t : List HostEvent} {app' : Application} (stores : StoresOnce key app cas t)
    (stores' : StoresOnce key app' cas t) : app = app' := by
  obtain ⟨before, after, rfl, _, _⟩ := stores
  obtain ⟨before', after', split, unchanged, counted⟩ := stores'
  have member : (⟨.setSharedData key (some (.application app)) (some cas), .ok ()⟩ : HostEvent) ∈
      before' ++ ⟨.setSharedData key (some (.application app')) (some cas), .ok ()⟩ :: after' := by
    rw [← split]
    exact List.mem_append_right _ List.mem_cons_self
  rcases List.mem_append.mp member with early | here
  · exact absurd trivial (unchanged _ early)
  · rcases List.mem_cons.mp here with same | late
    · cases same
      rfl
    · rcases counted _ late with counter | ⟨result, ghost⟩
      · cases counter
      · cases ghost

theorem getCachePairSize_done {t : List HostEvent} {result : Except CacheError Nat}
    (path : Prog.Path (getCachePairSize key) t (.done result)) : ∃ r, t = [⟨.getSharedData key, r⟩] := by
  cases path with
  | @next _ _ r t _ rest =>
    refine ⟨r, ?_⟩
    match r with
    | .error _ | .ok (some _, _) | .ok (none, _) =>
      cases rest
      rfl

theorem getApplicationFromCache_done {cacheKey : CacheKey} {t : List HostEvent}
    {found : Except CacheError (Application × Nat)}
    (path : Prog.Path (getApplicationFromCache cacheKey) t (.done found)) :
    ∃ reply, t = [⟨.getSharedData cacheKey.asString, reply⟩] ∧
      ∀ app cas, found = .ok (app, cas) ↔ reply = .ok (some (.application app), some cas) := by
  cases path with
  | @next _ _ reply t _ rest =>
    refine ⟨reply, ?_⟩
    match reply with
    | .ok (some (.application app), some cas) =>
      cases rest
      exact ⟨rfl, fun app' cas' => by simp⟩
    | .ok (some (.appId _), some _) | .ok (some (.calloutLock _), some _) |
      .ok (some (.memoryCounter _), some _) | .ok (some _, none) | .ok (none, _) | .error _ =>
      cases rest
      exact ⟨rfl, fun app' cas' => by simp⟩

/-- An application is stored, or nothing is changed. -/
theorem setApplicationToCache_done {t : List HostEvent} {result : Except SetFailure Unit}
    (path : Prog.Path (setApplicationToCache key app cas) t (.done result)) :
    (result = .ok () ∧ ∃ r counts, t = ⟨.getSharedData key, r⟩ ::
        ⟨.setSharedData key (some (.application app)) (some cas), .ok ()⟩ :: counts ∧
        ∀ e ∈ counts, CounterCall e.1) ∨
      ((∃ e, result = .error e) ∧ ∀ e ∈ t, ¬Changes e) := by
  obtain ⟨t₁, t₂, size, rfl, sized, path⟩ := Prog.path_bind_done path
  obtain ⟨r, rfl⟩ := getCachePairSize_done sized
  cases size with
  | error e =>
    cases path
    refine Or.inr ⟨⟨_, rfl⟩, fun e member => ?_⟩
    cases List.mem_singleton.mp member
    exact id
  | ok previous =>
    cases path with
    | @next _ _ reply t _ rest =>
      match reply with
      | .error e =>
        cases rest
        refine Or.inr ⟨⟨_, rfl⟩, fun e member => ?_⟩
        rcases List.mem_cons.mp member with rfl | later
        · exact id
        · cases List.mem_singleton.mp later
          exact id
      | .ok () =>
        have counting : Prog.Path (retryUpdateSharedMemorySize _ 3 >>= fun _ => pure (.ok ())) t
          (.done result) := rest
        obtain ⟨counts, t', _, rfl, counted, done⟩ := Prog.path_bind_done counting
        cases done
        refine Or.inl ⟨rfl, r, counts, by rw [List.append_nil]; rfl, ?_⟩
        exact (only_retryUpdate_counter _ 3).path counted

end
end ThreescaleCache
