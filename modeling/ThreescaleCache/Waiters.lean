import ThreescaleCache.Interaction.WaitingRoom
import ThreescaleCache.LockSoundness

namespace ThreescaleCache
open Interaction

variable {ι : Type} [DecidableEq ι]

/-- What a context leaves in the lock to be woken by. -/
def Caller.waiter (self : Caller) : Option CalloutWaiter :=
  self.queue.map fun queueId => ⟨queueId, self.context.contextId⟩

/-- An action with the id of this context, enqueued to its thread's queue. -/
def wakes (self : Caller) : HostEvent → Bool
  | ⟨.enqueueSharedQueue queueId (.waiterAction action), .ok ()⟩ =>
    self.waiter = some ⟨queueId, action.contextId⟩
  | _ => false

def wakeups (t : LockTrace ι) (self : Caller) : Nat := t.countP fun e => wakes self e.2

/-- The context is in the waiters stored under its lock key. -/
def StoredWaiter (d : SharedData) (self : Caller) : Prop :=
  ∃ v cas w, d.entry self.key = some (some (.calloutLock v), cas) ∧ self.waiter = some w ∧ w ∈ v.waiters

/-- Woken once, or not yet and then in the waiters of a lock that is held. -/
def NotLost (t : LockTrace ι) (d : SharedData) (self : Caller) : Prop :=
  wakeups t self = 1 ∨ (wakeups t self = 0 ∧ StoredWaiter d self ∧ ∃ j, Holds t self.key j)

/-- A write that adds a waiter. -/
def AddsWaiter (key : Str) (e : HostEvent) : Prop :=
  ∃ v cas, v.waiters ≠ [] ∧ e = ⟨.setSharedData key (some (.calloutLock v)) cas, .ok ()⟩

/-- The owner has read the waiters, but not yet erased the lock. -/
def Freeing (t : LockTrace ι) (key : Str) (i : ι) : Prop :=
  ∃ t₁ t₂ e r, t = t₁ ++ (i, e) :: t₂ ∧ Acquires key e ∧ (i, ⟨.getSharedData key, r⟩) ∈ t₂ ∧
    ¬Did t i (Erases key)

/-- No waiter is added to a lock that is being freed. -/
def noLateWaiter (s s' : LockConfig ι) : Prop :=
  ∀ j e key, s'.trace = s.trace ++ [(j, e)] → AddsWaiter key e → ∀ i, ¬Freeing s.trace key i

/-! The waiting room of the locks -/

/-- Whom a context has still to wake. -/
def View.pending (d : SharedData) (key : Str) : View → List CalloutWaiter
  | .owner => match d.entry key with
    | some (some (.calloutLock v), _) => v.waiters
    | _ => []
  | .notifying rest => rest
  | _ => []

theorem View.pending_of_not_owns {d : SharedData} {key : Str} {view : View} (not : ¬view.Owns) :
    view.pending d key = [] := by
  cases view with
  | owner | notifying => exact absurd trivial not
  | _ => rfl

theorem View.pending_put_ne {d : SharedData} {key other : Str} {value : Option SharedValue}
    (different : key ≠ other) (view : View) :
    view.pending (d.put other value) key = view.pending d key := by
  cases view with
  | owner => simp only [View.pending, d.put_entry_ne value different]
  | _ => rfl

structure WaitersInv (callers : ι → Caller) (d : SharedData) (t : LockTrace ι) (view : ι → View) :
    Prop where
  room : WaitingRoom (fun i => (callers i).key) (fun i => (callers i).waiter)
    (fun i => (view i).pending d (callers i).key) (fun i => view i = .waiting)
    (fun i => wakeups t (callers i))
  kept : ∀ j rest v cas, view j = .notifying rest →
    d.entry (callers j).key = some (some (.calloutLock v), cas) → ∀ w ∈ rest, w ∈ v.waiters
  freeing : ∀ j rest, view j = .notifying rest → Freeing t (callers j).key j

omit [DecidableEq ι] in
/-- What the invariant says about a context that was added to the waiters. -/
theorem WaitersInv.notLost {callers : ι → Caller} {d : SharedData} {t : LockTrace ι}
    {view : ι → View} (inv : WaitersInv callers d t view) (table : LockTable callers d view)
    (log : LockLog callers t view) {i : ι} (waiting : view i = .waiting) :
    NotLost t d (callers i) := by
  obtain ⟨w, own, done | ⟨none_, j, same, member⟩⟩ := inv.room.served i waiting
  · exact Or.inl done
  · right
    have owns : (view j).Owns := by
      by_contra not
      rw [View.pending_of_not_owns not] at member
      cases member
    obtain ⟨v, cas, entry⟩ := table.owned j owns
    refine ⟨none_, ⟨v, cas, w, same ▸ entry, own, ?_⟩, j, log.holds_iff.mpr ⟨same.symm, owns⟩⟩
    cases here : view j with
    | owner => simpa only [here, View.pending, entry] using member
    | notifying rest =>
      simp only [here, View.pending] at member
      exact inv.kept j rest v cas here entry w member
    | _ =>
      rw [here] at owns
      exact False.elim owns

/-! One call -/

variable {callers : ι → Caller} {d d' : SharedData} {t : LockTrace ι} {view : ι → View}

omit [DecidableEq ι] in
theorem wakeups_append (i : ι) (e : HostEvent) (self : Caller) :
    wakeups (t ++ [(i, e)]) self = wakeups t self + if wakes self e then 1 else 0 := by
  unfold wakeups
  rw [List.countP_append, List.countP_singleton]

omit [DecidableEq ι] in
theorem Freeing.append {key : Str} {i j : ι} {e : HostEvent} (freeing : Freeing t key j)
    (other : j ≠ i ∨ ¬Erases key e) : Freeing (t ++ [(i, e)]) key j := by
  obtain ⟨t₁, t₂, acquired, r, split, acquires, read, held⟩ := freeing
  refine ⟨t₁, t₂ ++ [(i, e)], acquired, r, ?_, acquires, List.mem_append_left _ read, ?_⟩
  · rw [split, List.append_assoc, List.cons_append]
  · rw [did_append]
    intro fact
    obtain old | ⟨same, erases⟩ := fact
    · exact held old
    · exact other.elim (fun different => different same) fun not => not erases

omit [DecidableEq ι] in
/-- Reading the waiters is the start of freeing. -/
theorem LockLog.freeing (log : LockLog callers t view) {i : ι} (owner : view i = .owner)
    (r : Except Status (Option SharedValue × Option Nat)) :
    Freeing (t ++ [(i, ⟨.getSharedData (callers i).key, r⟩)]) (callers i).key i := by
  obtain ⟨e, member, acquires⟩ := (log.acquired i (callers i).key).mpr
    ⟨rfl, Or.inl (by rw [owner]; trivial)⟩
  obtain ⟨t₁, t₂, rfl⟩ := List.append_of_mem member
  refine ⟨t₁, t₂ ++ [(i, ⟨.getSharedData (callers i).key, r⟩)], e, r, by simp, acquires, by simp, ?_⟩
  rw [did_append, log.erased]
  intro fact
  obtain ⟨_, gone⟩ | ⟨_, erases⟩ := fact
  · rw [owner] at gone
    cases gone
  · cases erases

/-- The other contexts that are freeing are not disturbed by a call. -/
theorem WaitersInv.moved (inv : WaitersInv callers d t view) {i : ι} {e : HostEvent} {view' : View}
    (room : WaitingRoom (fun j => (callers j).key) (fun j => (callers j).waiter)
      (fun j => (Function.update view i view' j).pending d' (callers j).key)
      (fun j => Function.update view i view' j = .waiting)
      (fun j => wakeups (t ++ [(i, e)]) (callers j)))
    (undisturbed : ∀ j rest, j ≠ i → view j = .notifying rest →
      d'.entry (callers j).key = d.entry (callers j).key)
    (mine : ∀ rest, view' = .notifying rest → Freeing (t ++ [(i, e)]) (callers i).key i ∧
      ∀ v cas, d'.entry (callers i).key = some (some (.calloutLock v), cas) → ∀ w ∈ rest, w ∈ v.waiters) :
    WaitersInv callers d' (t ++ [(i, e)]) (Function.update view i view') := by
  refine ⟨room, fun j rest v cas at_ entry => ?_, fun j rest at_ => ?_⟩
  · by_cases same : j = i
    · subst same
      rw [Function.update_self] at at_
      exact (mine rest at_).2 v cas entry
    · rw [Function.update_of_ne same] at at_
      rw [undisturbed j rest same at_] at entry
      exact inv.kept j rest v cas at_ entry
  · by_cases same : j = i
    · subst same
      rw [Function.update_self] at at_
      exact (mine rest at_).1
    · rw [Function.update_of_ne same] at at_
      exact (inv.freeing j rest at_).append (Or.inl same)

/-- A call that neither adds a waiter nor wakes one. -/
theorem WaitersInv.silent (inv : WaitersInv callers d t view) {i : ι} {e : HostEvent} {view' : View}
    (pending : ∀ j, (Function.update view i view' j).pending d' (callers j).key =
      (view j).pending d (callers j).key)
    (waits : view' = .waiting ↔ view i = .waiting) (mute : ∀ self, wakes self e = false)
    (undisturbed : ∀ j rest, j ≠ i → view j = .notifying rest →
      d'.entry (callers j).key = d.entry (callers j).key)
    (mine : ∀ rest, view' = .notifying rest → Freeing (t ++ [(i, e)]) (callers i).key i ∧
      ∀ v cas, d'.entry (callers i).key = some (some (.calloutLock v), cas) → ∀ w ∈ rest, w ∈ v.waiters) :
    WaitersInv callers d' (t ++ [(i, e)]) (Function.update view i view') := by
  refine inv.moved (inv.room.congr pending (fun j => ?_) fun j => ?_) undisturbed mine
  · by_cases same : j = i
    · subst same
      rw [Function.update_self]
      exact waits
    · rw [Function.update_of_ne same]
  · simp [wakeups_append, mute]

theorem pending_same {i : ι} {view' : View}
    (same : view'.pending d (callers i).key = (view i).pending d (callers i).key) (j : ι) :
    (Function.update view i view' j).pending d (callers j).key =
      (view j).pending d (callers j).key := by
  by_cases mine : j = i
  · subst mine
    rw [Function.update_self]
    exact same
  · rw [Function.update_of_ne mine]

/-- A write to a lock key that nobody else owns. -/
theorem pending_written {i : ι} {view' : View} {value : Option SharedValue}
    (sole : ∀ j, j ≠ i → (callers j).key = (callers i).key → ¬(view j).Owns)
    (before : (view i).pending d (callers i).key = [])
    (after : view'.pending (d.put (callers i).key value) (callers i).key = []) (j : ι) :
    (Function.update view i view' j).pending (d.put (callers i).key value) (callers j).key =
      (view j).pending d (callers j).key := by
  by_cases mine : j = i
  · subst mine
    rw [Function.update_self, before]
    exact after
  · rw [Function.update_of_ne mine]
    by_cases same : (callers j).key = (callers i).key
    · rw [View.pending_of_not_owns (sole j mine same), View.pending_of_not_owns (sole j mine same)]
    · exact View.pending_put_ne same _

omit [DecidableEq ι] in
theorem undisturbed_written {i : ι} {value : Option SharedValue}
    (sole : ∀ j, j ≠ i → (callers j).key = (callers i).key → ∀ rest, view j ≠ .notifying rest) :
    ∀ j rest, j ≠ i → view j = .notifying rest →
      (d.put (callers i).key value).entry (callers j).key = d.entry (callers j).key := by
  intro j rest different at_
  exact d.put_entry_ne value fun same => sole j different same rest at_

theorem wakes_notified (self waiter : _) (action : WaiterAction) :
    wakes self ⟨.enqueueSharedQueue waiter.queueId
      (.waiterAction (action.withContext waiter.httpContextId)), .ok ()⟩ =
        decide (self.waiter = some waiter) := by
  cases action <;> rfl

/-- A waiter is added while the owner has not begun to free the lock. -/
theorem WaitersInv.wait (inv : WaitersInv callers d t view) (table : LockTable callers d view)
    (distinct : ∀ i j w, (callers i).waiter = some w → (callers j).waiter = some w → i = j) {i : ι}
    {v : CalloutLockValue} {cas queueId : Nat} (at_ : view i = .held v cas)
    (own : (callers i).queue = some queueId)
    (entry : d.entry (callers i).key = some (some (.calloutLock v), cas))
    (calm : ∀ j, ¬Freeing t (callers i).key j) :
    WaitersInv callers
      (d.put (callers i).key (some (.calloutLock
        { v with waiters := v.waiters ++ [⟨queueId, (callers i).context.contextId⟩] })))
      (t ++ [(i, ⟨.setSharedData (callers i).key (some (.calloutLock
        { v with waiters := v.waiters ++ [⟨queueId, (callers i).context.contextId⟩] })) (some cas),
          .ok ()⟩)])
      (Function.update view i .waiting) := by
  obtain ⟨_, j, _, sameKey, owns⟩ := table.stored i _ _ entry
  have different : j ≠ i := by
    intro same
    subst same
    rw [at_] at owns
    exact owns
  have owner : view j = .owner := by
    cases here : view j with
    | owner => rfl
    | notifying rest => exact absurd (sameKey ▸ inv.freeing j rest here) (calm j)
    | _ =>
      rw [here] at owns
      exact False.elim owns
  have sole : ∀ k, k ≠ j → (callers k).key = (callers i).key → ¬(view k).Owns :=
    fun k other same owns' => other (table.unique k j (same.trans sameKey.symm) owns' owns)
  have waiter : (callers i).waiter = some ⟨queueId, (callers i).context.contextId⟩ := by
    rw [Caller.waiter, own]
    rfl
  have new : view i ≠ .waiting := by
    rw [at_]
    rintro ⟨⟩
  refine inv.moved ((inv.room.add distinct waiter sameKey new).congr ?_ ?_ ?_) ?_ ?_
  · intro k
    by_cases isOwner : k = j
    · subst isOwner
      rw [Function.update_of_ne different, Function.update_self, owner]
      simp only [View.pending, sameKey, SharedData.put_entry_self, entry]
    · rw [Function.update_of_ne isOwner]
      by_cases mine : k = i
      · subst mine
        rw [Function.update_self, at_]
        rfl
      · rw [Function.update_of_ne mine]
        by_cases same : (callers k).key = (callers i).key
        · rw [View.pending_of_not_owns (sole k isOwner same),
            View.pending_of_not_owns (sole k isOwner same)]
        · exact View.pending_put_ne same _
  · intro k
    by_cases mine : k = i
    · subst mine
      simp only [Function.update_self]
    · simp only [Function.update_of_ne mine]
  · intro k
    rw [wakeups_append]
    rfl
  · refine undisturbed_written fun k _ same rest notifying => ?_
    by_cases isOwner : k = j
    · subst isOwner
      rw [owner] at notifying
      cases notifying
    · exact sole k isOwner same (by rw [notifying]; trivial)
  · rintro rest ⟨⟩

/-- The owner wakes the next waiter. -/
theorem WaitersInv.notify (inv : WaitersInv callers d t view) (table : LockTable callers d view)
    (distinct : ∀ i j w, (callers i).waiter = some w → (callers j).waiter = some w → i = j) {i : ι}
    {waiter : CalloutWaiter} {rest : List CalloutWaiter} (at_ : view i = .notifying (waiter :: rest))
    (action : WaiterAction) :
    WaitersInv callers d
      (t ++ [(i, ⟨.enqueueSharedQueue waiter.queueId
        (.waiterAction (action.withContext waiter.httpContextId)), .ok ()⟩)])
      (Function.update view i (.notifying rest)) := by
  have owning : ∀ j w, w ∈ (view j).pending d (callers j).key → (view j).Owns := by
    intro j w member
    by_contra not
    rw [View.pending_of_not_owns not] at member
    cases member
  have once : ∀ j k w, w ∈ (view j).pending d (callers j).key → w ∈ (view k).pending d (callers k).key →
      j = k := by
    intro j k w first second
    obtain ⟨a, sameA, _, ownA⟩ := inv.room.queued j w first
    obtain ⟨b, sameB, _, ownB⟩ := inv.room.queued k w second
    rw [distinct a b w ownA ownB] at sameA
    exact table.unique j k (sameA.symm.trans sameB) (owning j w first) (owning k w second)
  have first : (view i).pending d (callers i).key = waiter :: rest := by rw [at_]; rfl
  refine inv.moved ((inv.room.wake distinct once first).congr ?_ ?_ ?_) (fun _ _ _ _ => rfl) ?_
  · intro k
    by_cases mine : k = i
    · subst mine
      simp only [Function.update_self]
      rfl
    · simp only [Function.update_of_ne mine]
  · intro k
    by_cases mine : k = i
    · subst mine
      simp only [Function.update_self, at_, reduceCtorEq]
    · simp only [Function.update_of_ne mine]
  · intro k
    rw [wakeups_append, wakes_notified]
    simp only [decide_eq_true_eq]
  · rintro rest' ⟨⟩
    refine ⟨(inv.freeing i _ at_).append (Or.inr (by rintro ⟨⟩)), fun v cas entry w member => ?_⟩
    exact inv.kept i _ v cas at_ entry w (List.mem_cons_of_mem _ member)

theorem WaitersInv.step (inv : WaitersInv callers d t view) (table : LockTable callers d view)
    (log : LockLog callers t view)
    (distinct : ∀ i j w, (callers i).waiter = some w → (callers j).waiter = some w → i = j) {i : ι}
    {e : HostEvent} {view' : View} (effect : LockEffect (callers i) d (view i) e view' d')
    (calm : AddsWaiter (callers i).key e → ∀ j, ¬Freeing t (callers i).key j) :
    WaitersInv callers d' (t ++ [(i, e)]) (Function.update view i view') := by
  have own := table.unique i
  generalize at_ : view i = before at effect own
  -- most calls leave shared data and the waiting room as they are
  have still : d' = d → (∀ self, wakes self e = false) → before.pending d (callers i).key = [] →
      view'.pending d (callers i).key = [] → (view' = .waiting ↔ before = .waiting) →
      (∀ rest, view' ≠ .notifying rest) →
      WaitersInv callers d' (t ++ [(i, e)]) (Function.update view i view') := by
    intro same mute none_ none' waits not
    subst same
    refine inv.silent (pending_same (by rw [none', at_, none_])) (by rw [waits, at_]) mute
      (fun _ _ _ _ => rfl) fun rest notifying => absurd notifying (not rest)
  cases effect with
  | resolve queue =>
    cases queue with
    | none => exact still rfl (fun _ => rfl) rfl rfl (by simp) (by simp)
    | some queueId => exact still rfl (fun _ => rfl) rfl rfl (by simp) (by simp)
  | lookAbsent => exact still rfl (fun _ => rfl) rfl rfl (by simp) (by simp)
  | lookHeld => exact still rfl (fun _ => rfl) rfl rfl (by simp) (by simp)
  | lookFreed => exact still rfl (fun _ => rfl) rfl rfl (by simp) (by simp)
  | lookFree => exact still rfl (fun _ => rfl) rfl rfl (by simp) (by simp)
  | late _ _ _ _ from_ =>
    rcases from_ with rfl | ⟨_, _, rfl, _⟩ | ⟨_, rfl, _⟩ <;>
      exact still rfl (fun _ => rfl) rfl rfl (by simp) (by simp)
  | enter => exact still rfl (fun _ => rfl) rfl rfl (by simp) (by simp)
  | acquire _ cas fresh from_ =>
    have sole : ∀ j, j ≠ i → (callers j).key = (callers i).key → ¬(view j).Owns := by
      intro j _ same owns
      obtain ⟨v, c, entry⟩ := table.owned j owns
      exact fresh _ c (same ▸ entry)
    have before_ : before.pending d (callers i).key = [] := by
      rcases from_ with rfl | ⟨seen, rfl⟩ <;> rfl
    refine inv.silent (pending_written sole (by rw [at_, before_]) ?_) ?_ (fun _ => rfl) ?_ ?_
    · simp only [View.pending, SharedData.put_entry_self]
      rfl
    · rw [at_]
      rcases from_ with rfl | ⟨seen, rfl⟩ <;> simp
    · refine undisturbed_written fun j other same rest notifying => ?_
      exact sole j other same (by rw [notifying]; trivial)
    · rintro rest ⟨⟩
  | wait v cas queueId queue entry =>
    refine inv.wait table distinct at_ queue entry (calm ⟨_, _, ?_, rfl⟩)
    exact List.append_ne_nil_of_right_ne_nil _ (List.cons_ne_nil _ _)
  | read v cas entry =>
    refine inv.silent (pending_same ?_) (by simp [at_]) (fun _ => rfl) (fun _ _ _ _ => rfl) ?_
    · simp only [at_, View.pending, entry]
    · rintro rest ⟨⟩
      refine ⟨log.freeing at_ _, fun v' cas' entry' w member => ?_⟩
      cases Option.some.inj (entry.symm.trans entry')
      exact member
  | notify waiter rest action => exact inv.notify table distinct at_ action
  | erase =>
    have sole : ∀ j, j ≠ i → (callers j).key = (callers i).key → ¬(view j).Owns :=
      fun j other same owns => other (own j same.symm trivial owns).symm
    refine inv.silent (pending_written sole (by rw [at_]; rfl) rfl) (by simp [at_]) (fun _ => rfl) ?_ ?_
    · refine undisturbed_written fun j other same rest notifying => ?_
      exact sole j other same (by rw [notifying]; trivial)
    · rintro rest ⟨⟩

/-! All runs -/

omit [DecidableEq ι] in
theorem waitersInv_start {context : ι → CacheFilter} {h : Host} :
    WaitersInv (callersOf context h) h.shared [] fun _ => .start := by
  refine ⟨⟨?_, ?_, ?_, ?_, ?_⟩, ?_, ?_⟩
  · exact fun _ => List.nodup_nil
  · exact fun _ _ member => absurd member List.not_mem_nil
  · rintro _ ⟨⟩
  · exact fun _ _ => rfl
  · exact fun _ _ _ _ _ => rfl
  · rintro _ _ _ _ ⟨⟩
  · rintro _ _ ⟨⟩

omit [DecidableEq ι] in
theorem WaitersInv.env {context : ι → CacheFilter} {h h' : Host}
    (sameContext : ∀ i, (callers i).context = context i) (inv : WaitersInv callers h.shared t view)
    (env : Host.Env h h' ∨ ∃ key value, (∀ i, key ≠ lockKey (context i)) ∧
      h' = { h with shared := h.shared.put key value }) : WaitersInv callers h'.shared t view := by
  rcases env with ⟨clock, dispatch, rfl⟩ | ⟨key, value, other, rfl⟩
  · exact inv
  · have different : ∀ i, (callers i).key ≠ key := by
      intro i same
      refine other i ?_
      rw [← same, Caller.key, sameContext]
    refine ⟨inv.room.congr (fun j => View.pending_put_ne (different j) _) (fun _ => Iff.rfl)
      (fun _ => rfl), fun j rest v cas at_ entry => ?_, inv.freeing⟩
    rw [h.shared.put_entry_ne value (different j)] at entry
    exact inv.kept j rest v cas at_ entry

/-- Contexts are told apart by their queue and their id. -/
def DistinctWaiters (context : ι → CacheFilter) (h : Host) : Prop :=
  ∀ i j w, (callersOf context h i).waiter = some w → (callersOf context h j).waiter = some w → i = j

theorem waiters_preserved {context : ι → CacheFilter} {h₀ : Host}
    (distinct : DistinctWaiters context h₀) :
    Preserved (lockParties context) noLateWaiter (fun i => locking (callersOf context h₀ i))
      (fun _ => View.Returned) fun s view => LockInv (callersOf context h₀) s.shared s.trace view ∧
        WaitersInv (callersOf context h₀) s.shared.shared s.trace view where
  call := by
    intro s view i c k fact at_ may calm
    obtain ⟨inv, waiters⟩ := fact
    obtain ⟨view', known, effect, _⟩ := inv.table.effect inv.queues may
    obtain ⟨view'', known', inv'⟩ := (lock_preserved context h₀ noLateWaiter).call s view i c k inv at_
      may calm
    cases Option.some.inj (known.symm.trans known')
    refine ⟨view', known, inv', waiters.step inv.table inv.log distinct effect fun adds => ?_⟩
    exact calm i _ _ rfl adds
  resume := by
    intro s view i result p fact at_ returned resumes calm
    obtain ⟨inv, waiters⟩ := fact
    obtain ⟨view', follows, inv'⟩ := (lock_preserved context h₀ noLateWaiter).resume s view i result p
      inv at_ returned resumes calm
    obtain ⟨rfl, action, rfl⟩ := resumes
    have owner : view i = .owner := returned
    refine ⟨.owner, locking_freeCalloutLock (callersOf context h₀ i) action, ?_⟩
    rw [← owner, Function.update_eq_self]
    exact ⟨inv, waiters⟩
  env := fun s view h' ⟨inv, waiters⟩ env =>
    ⟨inv.env (fun _ => rfl) env, waiters.env (fun _ => rfl) env⟩

/-- No waiter is lost in a run in which no waiter is added to a lock that is
being freed. -/
theorem waiters_notLost {context : ι → CacheFilter} {rounds : ι → Nat} {h₀ : Host}
    {s : LockConfig ι} (free : LocksFree context h₀) (distinct : DistinctWaiters context h₀)
    (reach : Reach (lockParties context) noLateWaiter (lockStart context rounds h₀) s) (i : ι) :
    s.procs i = .done (.tried (.ok .addedToWaitlist)) →
      NotLost s.trace s.shared.shared (callersOf context h₀ i) := by
  intro added
  obtain ⟨view, ⟨inv, waiters⟩, follows⟩ := reach.invariant (waiters_preserved distinct)
    ⟨fun _ => .start, ⟨lockInv_start free, waitersInv_start⟩,
      fun i => locking_setCalloutLock (callersOf context h₀ i) (rounds i)⟩
  have here := follows i
  rw [added] at here
  exact waiters.notLost inv.table inv.log here

def acquires : HostEvent → Bool
  | ⟨.setSharedData _ (some (.calloutLock v)) _, .ok ()⟩ => v.waiters.isEmpty
  | _ => false

def reads : HostEvent → Bool
  | ⟨.getSharedData _, _⟩ => true
  | _ => false

/-- After its own acquiring write a context has read nothing. -/
def UnreadSince (a b : ι × HostEvent) : Prop := a.1 = b.1 → acquires a.2 → reads b.2 = false

instance : DecidableRel (UnreadSince (ι := ι)) := fun _ _ => inferInstanceAs (Decidable (_ → _ → _))

omit [DecidableEq ι] in
theorem noLateWaiter_of_unread {s : LockConfig ι} (unread : s.trace.Pairwise UnreadSince)
    (s' : LockConfig ι) : noLateWaiter s s' := by
  intro j e key _ _ i fact
  obtain ⟨t₁, t₂, acquired, r, split, ⟨v, cas, none_, is⟩, read, _⟩ := fact
  rw [split, List.pairwise_append, List.pairwise_cons] at unread
  have acquired_ : acquires acquired := by rw [is, acquires, none_]; rfl
  cases unread.2.1.1 _ read rfl acquired_

theorem rivals_distinct : DistinctWaiters rivals usedHost := by
  have tickets : (callersOf rivals usedHost false).waiter ≠ (callersOf rivals usedHost true).waiter := by
    decide
  intro i j w first second
  cases i <;> cases j
  · rfl
  · exact absurd (first.trans second.symm) tickets
  · exact absurd (second.trans first.symm) tickets
  · rfl

/-- A waiter that is added before the owner begins to free the lock. -/
theorem acquiredAndAwaited_notLost :
    acquiredAndAwaited.procs true = .done (.tried (.ok .addedToWaitlist)) ∧
    NotLost acquiredAndAwaited.trace acquiredAndAwaited.shared.shared (callersOf rivals usedHost true) := by
  have unread : ∀ n < 7, (((lockStart rivals (fun _ => 1) usedHost).play (lockParties rivals)
      ([false, false, false, true, true, true, true].take n)).trace.Pairwise UnreadSince) := by decide
  have reach : Reach (lockParties rivals) noLateWaiter (lockStart rivals (fun _ => 1) usedHost)
      acquiredAndAwaited :=
    Reach.start.play_guarded _ fun n short _ _ _ => noLateWaiter_of_unread (unread n short) _
  have added : acquiredAndAwaited.procs true = .done (.tried (.ok .addedToWaitlist)) := rfl
  exact ⟨added, waiters_notLost rivals_locksFree rivals_distinct reach true added⟩

/-- The first context frees the lock, and the second one is added to its
waiters after the first has read them. -/
def lateWaiter : LockConfig Bool :=
  (Config.resumed ((lockStart rivals (fun _ => 1) usedHost).play (lockParties rivals)
      [false, false, false]) false
    (freeCalloutLockAndNotifyWaiters (rivals false).state.cacheKey (.handleCacheHit 0) >>=
      fun r => .done (.freed r))).play (lockParties rivals) [false, true, true, true, true, false]

/-- It is erased with the lock, and nothing will wake it. -/
theorem not_notLost_lateWaiter :
    Reach (lockParties rivals) anyStep (lockStart rivals (fun _ => 1) usedHost) lateWaiter ∧
    LocksFree rivals usedHost ∧
    lateWaiter.procs true = .done (.tried (.ok .addedToWaitlist)) ∧
    ¬NotLost lateWaiter.trace lateWaiter.shared.shared (callersOf rivals usedHost true) := by
  refine ⟨?_, rivals_locksFree, rfl, ?_⟩
  · refine Reach.play _ (.next (Reach.play _ .start) (.resume ?_ ⟨rfl, .handleCacheHit 0, rfl⟩) trivial)
    rfl
  · have asleep : wakeups lateWaiter.trace (callersOf rivals usedHost true) = 0 := by decide
    have erased : lateWaiter.shared.shared.value (callersOf rivals usedHost true).key = none := by decide
    intro fact
    obtain woken | ⟨_, ⟨v, cas, w, entry, _⟩, _⟩ := fact
    · omega
    · have value : lateWaiter.shared.shared.value (callersOf rivals usedHost true).key =
          some (.calloutLock v) := by
        rw [SharedData.value, SharedData.get_present entry]
      rw [erased] at value
      cases value

end ThreescaleCache
