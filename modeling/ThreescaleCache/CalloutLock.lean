import ThreescaleCache.CacheFilterRoot

namespace ThreescaleCache
open Interaction

variable {ι : Type} [DecidableEq ι]

/-! Contexts that compete for callout-locks, on any number of keys. Each one
tries to get its lock once, and frees it once if it was given it. -/

inductive CalloutResult where
  | tried (result : Except UniqueCalloutError SetCalloutLockStatus)
  | freed (result : Except UniqueCalloutError Unit)

def lockKey (context : CacheFilter) : Str := calloutLockKey context.state.cacheKey

/-- Outside these contexts the clock may move, and other keys of shared data
may be written. -/
def lockParties (context : ι → CacheFilter) :
    Parties ι HostCall HostCall.Reply Host CalloutResult where
  exec := fun _ => Host.exec
  env := fun h h' => Host.Env h h' ∨ ∃ key value, (∀ i, key ≠ lockKey (context i)) ∧
    h' = { h with shared := h.shared.put key value }
  resume := fun i result _ p => result = .tried (.ok .lockAcquired) ∧ ∃ action,
    p = freeCalloutLockAndNotifyWaiters (context i).state.cacheKey action >>= fun r => .done (.freed r)

abbrev LockConfig (ι : Type) := Config ι HostCall HostCall.Reply Host CalloutResult
abbrev LockTrace (ι : Type) := List (ι × HostEvent)

def lockStart (context : ι → CacheFilter) (rounds : ι → Nat) (h : Host) : LockConfig ι where
  shared := h
  procs := fun i => setCalloutLock (rounds i) (context i) >>= fun r => .done (.tried r)
  trace := []

/-- No lock is held, and no lock key was stored under the CAS 1. -/
structure LocksFree (context : ι → CacheFilter) (h : Host) : Prop where
  counter : 2 ≤ h.shared.nextCas
  free : ∀ i value cas, h.shared.entry (lockKey (context i)) = some (value, cas) →
    value = none ∧ cas ≠ 1

/-! Who holds a lock, from the calls alone -/

/-- The write that answers LockAcquired: the value has no waiters yet. -/
def Acquires (key : Str) (e : HostEvent) : Prop :=
  ∃ v cas, v.waiters = [] ∧ e = ⟨.setSharedData key (some (.calloutLock v)) cas, .ok ()⟩

def Erases (key : Str) (e : HostEvent) : Prop := e = ⟨.setSharedData key none none, .ok ()⟩

/-- A context holds a lock from its LockAcquired until its own free erases
the value. -/
def Holds (t : LockTrace ι) (key : Str) (i : ι) : Prop :=
  Did t i (Acquires key) ∧ ¬Did t i (Erases key)

/-! The protocol of one context -/

/-- A context with the id of its thread's queue. -/
structure Caller where
  context : CacheFilter
  queue : Option Nat

def Caller.key (self : Caller) : Str := lockKey self.context

def Caller.newLock (self : Caller) : CalloutLockValue := ⟨self.context.rootId, []⟩

/-- How far a context has come, and what it has read. `seen` says whether it
has met a held lock in an earlier round. -/
inductive View where
  | start
  | looking (seen : Bool)
  | absent (seen : Bool)
  | held (value : CalloutLockValue) (cas : Nat)
  | free (cas : Nat)
  | waiting
  | cameFirst
  | owner
  | notifying (rest : List CalloutWaiter)
  | gone
  | failed

/-- Being a lock's owner, whatever of its waiters were notified. -/
def View.Owns : View → Prop
  | .owner => True
  | .notifying _ => True
  | _ => False

inductive LockCall (self : Caller) : View → HostCall → Prop
  | resolve : LockCall self .start (.resolveSharedQueue (threadQueueName self.context.rootId))
  | look (seen : Bool) : LockCall self (.looking seen) (.getSharedData self.key)
  | insert (seen : Bool) : LockCall self (.absent seen)
      (.setSharedData self.key (some (.calloutLock self.newLock)) (some 1))
  | wait (v : CalloutLockValue) (cas queueId : Nat) (own : self.queue = some queueId) :
      LockCall self (.held v cas) (.setSharedData self.key (some (.calloutLock
        { v with waiters := v.waiters ++ [⟨queueId, self.context.contextId⟩] })) (some cas))
  | take (cas : Nat) : LockCall self (.free cas)
      (.setSharedData self.key (some (.calloutLock self.newLock)) (some cas))
  | enter : LockCall self .waiting (.insertWaitingContext self.context)
  | read : LockCall self .owner (.getSharedData self.key)
  | notify (waiter : CalloutWaiter) (rest : List CalloutWaiter) (action : WaiterAction) :
      LockCall self (.notifying (waiter :: rest)) (.enqueueSharedQueue waiter.queueId
        (.waiterAction (action.withContext waiter.httpContextId)))
  | erase : LockCall self (.notifying []) (.setSharedData self.key none none)

/-- The next view. The replies that are left out are those that a lock key
never gives: another kind of value, or an error beside a CAS mismatch. -/
def View.next (self : Caller) : View → (c : HostCall) → c.Reply → Option View
  | .start, .resolveSharedQueue _, queue =>
    if queue = self.queue then some (if queue.isSome then .looking false else .failed) else none
  | .looking seen, .getSharedData _, .ok (none, none) => some (.absent seen)
  | .looking _, .getSharedData _, .ok (some (.calloutLock v), some cas) => some (.held v cas)
  | .looking seen, .getSharedData _, .ok (none, some cas) =>
    some (if seen then .cameFirst else .free cas)
  | .absent _, .setSharedData .., .ok () => some .owner
  | .absent seen, .setSharedData .., .error .casMismatch => some (.looking seen)
  | .held _ _, .setSharedData .., .ok () => some .waiting
  | .held _ _, .setSharedData .., .error .casMismatch => some (.looking true)
  | .free _, .setSharedData .., .ok () => some .owner
  | .free _, .setSharedData .., .error .casMismatch => some (.looking false)
  | .waiting, .insertWaitingContext _, _ => some .waiting
  | .owner, .getSharedData _, .ok (some (.calloutLock v), some _) => some (.notifying v.waiters)
  | .notifying (_ :: rest), .enqueueSharedQueue .., .ok () => some (.notifying rest)
  | .notifying [], .setSharedData .., .ok () => some .gone
  | _, _, _ => none

def locking (self : Caller) : HostProtocol View where
  may := LockCall self
  next := View.next self

/-- A result tells how far the context has come. -/
def View.Returned (view : View) : CalloutResult → Prop
  | .tried (.ok .lockAcquired) => view = .owner
  | .tried (.ok .addedToWaitlist) => view = .waiting
  | .tried (.ok .responseCameFirst) => view = .cameFirst
  | .tried (.error _) => True
  | .freed _ => True

theorem locking_loop {self : Caller} {queueId : Nat} (own : self.queue = some queueId) (rounds : Nat)
    (seen : Option Nat) :
    Follows (locking self) (fun view r => view.Returned (.tried r))
      (setCalloutLockLoop self.context self.key ⟨queueId, self.context.contextId⟩ rounds seen)
      (.looking seen.isSome) := by
  induction rounds generalizing seen with
  | zero => trivial
  | succ rounds ih =>
    refine ⟨.look _, fun r view known => ?_⟩
    match r with
    | .error _ => cases known
    | .ok (none, none) =>
      cases Option.some.inj known
      refine ⟨.insert _, fun r view known => ?_⟩
      match r with
      | .ok () =>
        cases Option.some.inj known
        exact rfl
      | .error .casMismatch =>
        cases Option.some.inj known
        exact ih seen
      | .error .notFound | .error .badArgument | .error .empty | .error .internalFailure => cases known
    | .ok (some (.calloutLock v), some cas) =>
      cases Option.some.inj known
      refine ⟨.wait v cas queueId own, fun r view known => ?_⟩
      match r with
      | .ok () =>
        cases Option.some.inj known
        refine ⟨.enter, fun _ view known => ?_⟩
        cases Option.some.inj known
        exact rfl
      | .error .casMismatch =>
        cases Option.some.inj known
        exact ih (some v.ownedBy)
      | .error .notFound | .error .badArgument | .error .empty | .error .internalFailure => cases known
    | .ok (none, some cas) =>
      cases seen with
      | some ownedBy =>
        cases Option.some.inj known
        exact rfl
      | none =>
        cases Option.some.inj known
        refine ⟨.take cas, fun r view known => ?_⟩
        match r with
        | .ok () =>
          cases Option.some.inj known
          exact rfl
        | .error .casMismatch =>
          cases Option.some.inj known
          exact ih none
        | .error .notFound | .error .badArgument | .error .empty | .error .internalFailure => cases known
    | .ok (some (.application _), _) | .ok (some (.appId _), _) | .ok (some (.memoryCounter _), _)
    | .ok (some (.calloutLock _), none) => cases known

theorem locking_setCalloutLock (self : Caller) (rounds : Nat) :
    Follows (locking self) View.Returned
      (setCalloutLock rounds self.context >>= fun r => .done (.tried r)) .start := by
  refine follows_bind.mpr ⟨.resolve, fun queue view known => ?_⟩
  by_cases own : queue = self.queue
  · cases Option.some.inj ((if_pos own).symm.trans known)
    cases queue with
    | none => trivial
    | some queueId => exact locking_loop own.symm rounds none
  · cases (if_neg own).symm.trans known

theorem locking_notifyWaiters (self : Caller) (action : WaiterAction) (waiters : List CalloutWaiter) :
    Follows (locking self) (fun view _ => view = .notifying []) (notifyWaiters action waiters)
      (.notifying waiters) := by
  induction waiters with
  | nil => exact rfl
  | cons waiter rest ih =>
    refine ⟨.notify waiter rest action, fun r view known => ?_⟩
    cases r with
    | error e => cases known
    | ok =>
      cases Option.some.inj known
      exact ih

theorem locking_freeCalloutLock (self : Caller) (action : WaiterAction) :
    Follows (locking self) View.Returned
      (freeCalloutLockAndNotifyWaiters self.context.state.cacheKey action >>= fun r => .done (.freed r))
      .owner := by
  have freed : Follows (locking self) (fun _ _ => True)
      (freeCalloutLockAndNotifyWaiters self.context.state.cacheKey action) .owner := by
    refine ⟨.read, fun r view known => ?_⟩
    match r with
    | .error _ => cases known
    | .ok (some (.calloutLock v), some cas) =>
      cases Option.some.inj known
      show Follows _ _ (notifyWaiters action v.waiters >>= _) _
      refine follows_bind.mpr ((locking_notifyWaiters self action v.waiters).mono ?_)
      intro view _ same
      subst same
      refine ⟨.erase, fun r _ _ => ?_⟩
      cases r <;> trivial
    | .ok (none, none) | .ok (none, some _) | .ok (some (.application _), _) | .ok (some (.appId _), _)
    | .ok (some (.memoryCounter _), _) | .ok (some (.calloutLock _), none) => cases known
  exact follows_bind.mpr (freed.mono fun _ _ _ => trivial)

end ThreescaleCache
