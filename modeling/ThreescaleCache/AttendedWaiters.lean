import ThreescaleCache.InFlight
import ThreescaleCache.Interaction.Triples
import ThreescaleCache.LoneRuns

namespace ThreescaleCache
open Interaction

/-! Contexts that wait for somebody else's callout: no callback forgets one. -/

/-- The item wakes the context. -/
def isFor (contextId : Nat) : QueueItem → Bool
  | .waiterAction action => action.contextId == contextId
  | .message _ => false

/-- The number of items ahead of the first one for the context. -/
def Host.place (h : Host) (queueId contextId : Nat) : Option Nat := (h.queues queueId).findIdx? (isFor contextId)

/-- The waiter is in the list of the lock that is held under the key. -/
def Listed (d : SharedData) (key : Str) (waiter : CalloutWaiter) : Prop :=
  ∃ lock cas, d.entry key = some (some (.calloutLock lock), cas) ∧ waiter ∈ lock.waiters

/-- Every waiting context, but for the spared ones, is listed under the lock
that it asked for or has an item in the queue of its thread. Since the state
`base` the queues have only grown, and none of these contexts has ceased to wait. -/
structure Attended (ids : Str → Option Nat) (spared : Nat → Nat → Prop) (base h : Host) : Prop where
  registered : h.queueIds = ids
  apps : h.shared.Stored fun _ app => Apart app.cacheKey.asString
  waits : ∀ rootId contextId context, h.waiting rootId contextId = some context → ¬spared rootId contextId →
    ∃ queueId, ids (threadQueueName rootId) = some queueId ∧
      (Listed h.shared (lockKey context) ⟨queueId, contextId⟩ ∨ (h.place queueId contextId).isSome)
  queues : ∀ queueId, base.queues queueId <+: h.queues queueId
  waiting : ∀ rootId contextId, (base.waiting rootId contextId).isSome → ¬spared rootId contextId →
    (h.waiting rootId contextId).isSome

variable {ids : Str → Option Nat} {spared : Nat → Nat → Prop} {base h h' : Host}

theorem place_grown {queueId contextId n : Nat} (grown : h.queues queueId <+: h'.queues queueId)
    (here : h.place queueId contextId = some n) : h'.place queueId contextId = some n := by
  obtain ⟨added, same⟩ := grown
  unfold Host.place at here ⊢
  rw [← same, List.findIdx?_append, here]
  rfl

theorem placed_grown {queueId contextId : Nat} (grown : h.queues queueId <+: h'.queues queueId)
    (here : (h.place queueId contextId).isSome) : (h'.place queueId contextId).isSome := by
  obtain ⟨n, at_⟩ := Option.isSome_iff_exists.mp here
  exact Option.isSome_iff_exists.mpr ⟨n, place_grown grown at_⟩

namespace Attended

theorem refl (attended : Attended ids spared base h) : Attended ids spared h h :=
  ⟨attended.registered, attended.apps, attended.waits, fun _ => List.prefix_refl _, fun _ _ waits _ => waits⟩

theorem trans (first : Attended ids spared base h) (second : Attended ids spared h h') :
    Attended ids spared base h' :=
  ⟨second.registered, second.apps, second.waits,
    fun queueId => (first.queues queueId).trans (second.queues queueId),
    fun rootId contextId waits unspared =>
      second.waiting rootId contextId (first.waiting rootId contextId waits unspared) unspared⟩

/-- The rule of a write: whoever is listed under the key stays listed, or has an
item in the queue. -/
theorem put (attended : Attended ids spared base h) {key : Str} {value : Option SharedValue}
    (app : ∀ app, value = some (.application app) → Apart app.cacheKey.asString)
    (kept : isLockKey key = true → ∀ waiter, Listed h.shared key waiter →
      (∃ lock, value = some (.calloutLock lock) ∧ waiter ∈ lock.waiters) ∨
        (h.place waiter.queueId waiter.httpContextId).isSome) :
    Attended ids spared base { h with shared := h.shared.put key value } where
  registered := attended.registered
  apps := attended.apps.put app
  waits := by
    intro rootId contextId context waits unspared
    obtain ⟨queueId, own, listed | placed⟩ := attended.waits rootId contextId context waits unspared
    · refine ⟨queueId, own, ?_⟩
      by_cases same : lockKey context = key
      · have isKey : isLockKey key = true := same ▸ isLockKey_calloutLockKey context.state.cacheKey
        refine (kept isKey _ (same ▸ listed)).imp_left fun ⟨lock, is, member⟩ => ?_
        rw [same, is]
        exact ⟨lock, _, h.shared.put_entry_self key _, member⟩
      · obtain ⟨lock, cas, entry, member⟩ := listed
        exact Or.inl ⟨lock, cas, (h.shared.put_entry_ne value same).trans entry, member⟩
    · exact ⟨queueId, own, Or.inr placed⟩
  queues := attended.queues
  waiting := attended.waiting

theorem put_apart (attended : Attended ids spared base h) {key : Str} {value : Option SharedValue}
    (isApart : Apart key) (app : ∀ app, value = some (.application app) → Apart app.cacheKey.asString) :
    Attended ids spared base { h with shared := h.shared.put key value } := by
  refine attended.put app fun isKey => ?_
  rw [isApart] at isKey
  cases isKey

theorem set_apart (attended : Attended ids spared base h) {key : Str} {value : Option SharedValue}
    {cas : Option Nat} (isApart : Apart key)
    (app : ∀ app, value = some (.application app) → Apart app.cacheKey.asString) :
    Attended ids spared base (Host.exec (.setSharedData key value cas) h).2 := by
  rcases h.shared.set_cases key value cas with put | refused
  · simp only [Host.exec, put]
    exact attended.put_apart isApart app
  · simp only [Host.exec, refused]
    exact attended

end Attended

/-- Calls that write no shared data, take no item and leave the waiting contexts alone. -/
def Tame : HostCall → Prop
  | .setSharedData .. => False
  | .dequeueSharedQueue _ => False
  | .insertWaitingContext _ => False
  | .removeWaitingContext .. => False
  | _ => True

theorem enqueue_grows (h : Host) (queueId other : Nat) (item : QueueItem) :
    h.queues other <+: (Host.exec (.enqueueSharedQueue queueId item) h).2.queues other := by
  simp only [Host.exec]
  by_cases same : other = queueId
  · subst same
    rw [Function.update_self]
    exact List.prefix_append _ _
  · exact (Function.update_of_ne same _ h.queues).symm ▸ List.prefix_refl _

theorem Attended.exec {c : HostCall} (attended : Attended ids spared base h) (tame : Tame c) :
    Attended ids spared base (Host.exec c h).2 := by
  cases c with
  | setSharedData | dequeueSharedQueue | insertWaitingContext | removeWaitingContext => exact tame.elim
  | enqueueSharedQueue queueId item =>
    have grown := fun other => enqueue_grows h queueId other item
    refine ⟨attended.registered, attended.apps, fun rootId contextId context waits unspared => ?_,
      fun other => (attended.queues other).trans (grown other), attended.waiting⟩
    obtain ⟨own, id, here⟩ := attended.waits rootId contextId context waits unspared
    exact ⟨own, id, here.imp_right (placed_grown (grown own))⟩
  | _ => exact ⟨attended.registered, attended.apps, attended.waits, attended.queues, attended.waiting⟩

/-! Programs that keep the contexts attended -/

/-- Whoever is spared, and since whatever state. -/
def Tends {α : Type} (p : HostProg α) : Prop :=
  ∀ ids spared base, Triple Host.exec (Attended ids spared base) p fun _ => Attended ids spared base

theorem tends_bind {α β : Type} {p : HostProg α} {f : α → HostProg β} (first : Tends p) (rest : ∀ a, Tends (f a)) :
    Tends (p >>= f) :=
  fun ids spared base => triple_bind (first ids spared base) fun a => rest a ids spared base

theorem tends_done {α : Type} (a : α) : Tends (.done a) := fun _ _ _ => triple_done fun _ attended => attended

theorem tends_trap {α : Type} : Tends (.trap : HostProg α) := fun _ _ _ => triple_trap

theorem tends_only {α : Type} {p : HostProg α} (only : p.Only Tame) : Tends p :=
  fun _ _ _ => triple_only only fun _ _ tame attended => attended.exec tame

theorem tends_ask (c : HostCall) (tame : Tame c) : Tends (ask c) := tends_only ⟨tame, fun _ => trivial⟩

theorem tame_failureCall {c : HostCall} (failure : FailureCall c) : Tame c := by
  cases failure <;> trivial

theorem tends_inRequestFailure (f : CacheFilter) : Tends f.inRequestFailure :=
  tends_only ((only_inRequestFailure f).mono fun _ => tame_failureCall)

theorem tends_requestProcessFailure (f : CacheFilter) : Tends f.requestProcessFailure :=
  tends_only ((only_requestProcessFailure f).mono fun _ => tame_failureCall)

theorem tends_doAuthCall (lib : ThirdParty) (f : CacheFilter) : Tends (f.doAuthCall lib) := by
  unfold CacheFilter.doAuthCall
  split
  · exact tends_inRequestFailure f
  · refine tends_bind (tends_only ⟨trivial, fun _ => trivial⟩) fun reply => ?_
    cases reply with
    | ok => exact tends_done _
    | error => exact tends_inRequestFailure f

/-! The cache hit flow -/

/-- What is kept along the flow: the applications that were read have keys that
are no lock keys. -/
def ReadsApart (ids : Str → Option Nat) (spared : Nat → Nat → Prop) (base h : Host) (ℓ : Progress) : Prop :=
  Attended ids spared base h ∧ ∀ key app cas, (key, app, cas) ∈ ℓ.reads → Apart app.cacheKey.asString

theorem ReadsApart.exec {ℓ : Progress} {c : HostCall} (inv : ReadsApart ids spared base h ℓ)
    (may : servingApart.may ℓ c) (hit : HitCall c) :
    ReadsApart ids spared base (Host.exec c h).2 (ℓ.next ⟨c, (Host.exec c h).1⟩) := by
  obtain ⟨attended, reads⟩ := inv
  refine ⟨?_, fun key app cas member => ?_⟩
  · cases hit with
    | check check =>
      cases check with
      | checked => exact attended.exec trivial
      | filing filing =>
        cases filing with
        | side side =>
          cases side with
          | read key => exact attended.exec trivial
          | count size cas => exact attended.set_apart apart_counter (by rintro _ ⟨⟩)
        | application app' cas =>
          obtain ⟨app, n, _, key, inHand, _⟩ := may.application_inv
          have isApart : Apart app.cacheKey.asString := by
            rcases inHand with ⟨key, read⟩ | ⟨_, formed, _⟩
            · exact reads key app n read
            · exact formed
          refine attended.set_apart (key ▸ isApart) ?_
          rintro _ ⟨⟩
          exact key ▸ isApart
    | count | resolve | time | report | limit | resume => exact attended.exec trivial
  · rcases Progress.mem_reads_next member with old | read
    · exact reads key app cas old
    · exact attended.apps key app cas (exec_read read)

theorem tends_handleCacheHit {app : Application} (isApart : Apart app.cacheKey.asString) (f : CacheFilter)
    (cas : Nat) : Tends (f.handleCacheHit app cas) := by
  intro ids spared base h attended
  let read : Progress := { reads := [([], app, cas)] }
  have reads : ReadsApart ids spared base h read := by
    refine ⟨attended, fun key app' cas' member => ?_⟩
    cases List.mem_singleton.mp member
    exact isApart
  have preserved : ∀ h ℓ c, ReadsApart ids spared base h ℓ → servingApart.may ℓ c → HitCall c →
      ∃ ℓ', servingApart.next ℓ c (Host.exec c h).1 = some ℓ' ∧ ReadsApart ids spared base (Host.exec c h).2 ℓ' :=
    fun _ _ _ inv may hit => ⟨_, rfl, inv.exec may hit⟩
  have inHand : InHand (fun app => Apart app.cacheKey.asString) read app cas := Or.inl ⟨[], List.mem_cons_self⟩
  have follows := (serving_handleCacheHit inHand).triple preserved (only_handleCacheHit f app cas)
  refine (follows h reads).mono fun _ _ held a is => ?_
  obtain ⟨_, inv, _⟩ := held a is
  exact inv.1

theorem tends_cacheHitOrFail {app : Application} (isApart : Apart app.cacheKey.asString) (f : CacheFilter)
    (cas : Nat) : Tends (f.cacheHitOrFail app cas) := by
  refine tends_bind (tends_handleCacheHit isApart f cas) fun hit => ?_
  match hit with
  | (f, .ok ()) => exact tends_done _
  | (f, .error e) => exact tends_inRequestFailure f

/-- What is found under a key is an application whose own key is no lock key. -/
theorem triple_readApart (key : CacheKey) :
    Triple Host.exec (Attended ids spared base) (getApplicationFromCache key) fun r h =>
      Attended ids spared base h ∧ ∀ app cas, r = .ok (app, cas) → Apart app.cacheKey.asString := by
  intro h attended
  unfold getApplicationFromCache
  refine alone_perform_bind.mpr ?_
  simp only [Host.exec]
  cases entry : h.shared.entry key.asString with
  | none =>
    rw [SharedData.get_absent entry]
    rintro _ ⟨⟩
    exact ⟨attended, by rintro _ _ ⟨⟩⟩
  | some pair =>
    obtain ⟨value, cas⟩ := pair
    rw [SharedData.get_present entry]
    match value with
    | some (.application app) =>
      rintro _ ⟨⟩
      refine ⟨attended, ?_⟩
      rintro _ _ ⟨⟩
      exact attended.apps key.asString app cas entry
    | some (.appId _) | some (.calloutLock _) | some (.memoryCounter _) | none =>
      rintro _ ⟨⟩
      exact ⟨attended, by rintro _ _ ⟨⟩⟩

/-- The rule of a lookup. -/
theorem tends_lookup {α : Type} {key : CacheKey} {f : Except CacheError (Application × Nat) → HostProg α}
    (found : ∀ app cas, Apart app.cacheKey.asString → Tends (f (.ok (app, cas))))
    (missed : ∀ e, Tends (f (.error e))) : Tends (getApplicationFromCache key >>= f) := by
  intro ids spared base
  refine triple_bind (triple_readApart key) fun r => triple_given fun isApart => ?_
  match r with
  | .ok (app, cas) => exact found app cas (isApart app cas rfl) ids spared base
  | .error e => exact missed e ids spared base

theorem tends_getAppIdFromCache (userKey : UserKey) : Tends (getAppIdFromCache userKey) := by
  rw [getAppIdFromCache_eq]
  exact tends_only ⟨trivial, fun _ => trivial⟩

/-! The callout-lock -/

/-- What is found among the contexts after one place was overwritten. -/
theorem update_update {α : Type} (g : Nat → Nat → α) (rootId contextId : Nat) (value : α) (r c : Nat) :
    Function.update g rootId (Function.update (g rootId) contextId value) r c =
      if r = rootId ∧ c = contextId then value else g r c := by
  by_cases thread : r = rootId
  · subst thread
    simp only [Function.update_self, Function.update_apply, true_and]
  · simp only [Function.update_of_ne thread, thread, false_and, if_false]

theorem Attended.insert (attended : Attended ids spared base h) {f : CacheFilter} {queueId : Nat}
    (own : ids (threadQueueName f.rootId) = some queueId)
    (listed : Listed h.shared (lockKey f) ⟨queueId, f.contextId⟩) :
    Attended ids spared base (Host.exec (.insertWaitingContext f) h).2 where
  registered := attended.registered
  apps := attended.apps
  waits := by
    intro rootId contextId context waits unspared
    simp only [Host.exec, update_update] at waits
    by_cases same : rootId = f.rootId ∧ contextId = f.contextId
    · rw [if_pos same] at waits
      obtain ⟨rfl, rfl⟩ := same
      cases Option.some.inj waits
      exact ⟨queueId, own, Or.inl listed⟩
    · rw [if_neg same] at waits
      exact attended.waits rootId contextId context waits unspared
  queues := attended.queues
  waiting := by
    intro rootId contextId waits unspared
    simp only [Host.exec, update_update]
    split
    · rfl
    · exact attended.waiting rootId contextId waits unspared

/-- A lock is written that keeps the waiters that are listed. -/
theorem Attended.lock (attended : Attended ids spared base h) {key : Str} {lock : CalloutLockValue}
    (kept : ∀ waiter, Listed h.shared key waiter → waiter ∈ lock.waiters) :
    Attended ids spared base { h with shared := h.shared.put key (some (.calloutLock lock)) } :=
  attended.put (by rintro _ ⟨⟩) fun _ waiter listed => Or.inl ⟨lock, rfl, kept waiter listed⟩

theorem triple_setCalloutLockLoop {f : CacheFilter} {queueId : Nat}
    (own : ids (threadQueueName f.rootId) = some queueId) (rounds : Nat) (seen : Option Nat) :
    Triple Host.exec (Attended ids spared base)
      (setCalloutLockLoop f (lockKey f) ⟨queueId, f.contextId⟩ rounds seen) fun _ => Attended ids spared base := by
  cases rounds with
  | zero => exact triple_spin
  | succ rounds =>
    intro h attended
    unfold setCalloutLockLoop
    refine alone_perform_bind.mpr ?_
    simp only [Host.exec]
    cases entry : h.shared.entry (lockKey f) with
    | none =>
      rw [SharedData.get_absent entry]
      refine alone_perform_bind.mpr ?_
      simp only [Host.exec, SharedData.set_absent _ _ entry]
      rintro _ ⟨⟩
      refine attended.lock fun waiter listed => ?_
      obtain ⟨lock, cas, held, _⟩ := listed
      rw [entry] at held
      cases held
    | some pair =>
      obtain ⟨value, cas⟩ := pair
      rw [SharedData.get_present entry]
      cases value with
      | none =>
        cases seen with
        | some owner =>
          rintro _ ⟨⟩
          exact attended
        | none =>
          refine alone_perform_bind.mpr ?_
          simp only [Host.exec, SharedData.set_match _ entry]
          rintro _ ⟨⟩
          refine attended.lock fun waiter listed => ?_
          obtain ⟨lock, cas', held, _⟩ := listed
          rw [entry] at held
          cases held
      | some value =>
        refine after_some.mpr ?_
        dsimp only
        cases read : value.lock with
        | none =>
          rintro _ ⟨⟩
          exact attended
        | some stored =>
          refine alone_perform_bind.mpr ?_
          simp only [Host.exec, SharedData.set_match _ entry]
          let longer : CalloutLockValue := { stored with waiters := stored.waiters ++ [⟨queueId, f.contextId⟩] }
          have added : Attended ids spared base
              { h with shared := h.shared.put (lockKey f) (some (.calloutLock longer)) } := by
            refine attended.lock ?_
            rintro waiter ⟨lock, cas', held, member⟩
            rw [entry] at held
            cases held
            cases Option.some.inj read
            exact List.mem_append_left _ member
          rintro _ ⟨⟩
          refine added.insert own ⟨longer, _, h.shared.put_entry_self _ _, ?_⟩
          exact List.mem_append_right _ List.mem_cons_self

theorem tends_setCalloutLock (rounds : Nat) (f : CacheFilter) : Tends (setCalloutLock rounds f) := by
  intro ids spared base h attended
  unfold setCalloutLock
  refine alone_perform_bind.mpr ?_
  simp only [Host.exec, attended.registered]
  cases own : ids (threadQueueName f.rootId) with
  | none =>
    rintro _ ⟨⟩
    exact attended
  | some queueId => exact triple_setCalloutLockLoop own rounds none h attended

/-- Each waiter has an item in its queue, once it has been notified. -/
theorem triple_notifyWaiters (action : WaiterAction) (waiters : List CalloutWaiter) (d : SharedData) :
    Triple Host.exec (fun h => Attended ids spared base h ∧ h.shared = d) (notifyWaiters action waiters) fun _ h =>
      Attended ids spared base h ∧ h.shared = d ∧
        ∀ waiter ∈ waiters, (h.place waiter.queueId waiter.httpContextId).isSome := by
  induction waiters generalizing base with
  | nil => exact triple_done fun h held => ⟨held.1, held.2, by simp⟩
  | cons waiter rest ih =>
    rintro h ⟨attended, same⟩
    refine alone_perform_bind.mpr ?_
    let item : QueueItem := .waiterAction (action.withContext waiter.httpContextId)
    have told := attended.exec (c := .enqueueSharedQueue waiter.queueId item) trivial
    have placed : ((Host.exec (.enqueueSharedQueue waiter.queueId item) h).2.place waiter.queueId
        waiter.httpContextId).isSome := by
      have wakes : isFor waiter.httpContextId item = true := by
        cases action <;> simp [item, isFor, WaiterAction.withContext, WaiterAction.contextId]
      simp [Host.place, Host.exec, wakes]
    refine (ih _ ⟨told.refl, same⟩).mono fun h' r held a is => ?_
    obtain ⟨later, same', others⟩ := held a is
    refine ⟨told.trans later, same', fun w member => ?_⟩
    rcases List.mem_cons.mp member with rfl | other
    · exact placed_grown (later.queues _) placed
    · exact others w other

/-- The waiters of a lock that is erased have been told. -/
theorem tends_freeCalloutLock (cacheKey : CacheKey) (action : WaiterAction) :
    Tends (freeCalloutLockAndNotifyWaiters cacheKey action) := by
  intro ids spared base h attended
  unfold freeCalloutLockAndNotifyWaiters
  refine alone_perform_bind.mpr ?_
  simp only [Host.exec]
  cases entry : h.shared.entry (calloutLockKey cacheKey) with
  | none =>
    rw [SharedData.get_absent entry]
    rintro _ ⟨⟩
    exact attended
  | some pair =>
    obtain ⟨value, cas⟩ := pair
    rw [SharedData.get_present entry]
    cases value with
    | none =>
      rintro _ ⟨⟩
      exact attended
    | some value =>
      refine after_some.mpr ?_
      dsimp only
      cases read : value.lock with
      | none =>
        rintro _ ⟨⟩
        exact attended
      | some lock =>
        refine triple_bind (triple_notifyWaiters action lock.waiters h.shared) (fun _ => ?_) h ⟨attended, rfl⟩
        rintro h' ⟨later, same, told⟩
        refine alone_perform_bind.mpr ?_
        simp only [Host.exec, h'.shared.set_overwrite _ _ SharedData.no_cas]
        rintro _ ⟨⟩
        refine later.put (by rintro _ ⟨⟩) fun _ waiter listed => Or.inr (told waiter ?_)
        obtain ⟨lock', cas', held, member⟩ := listed
        rw [same, entry] at held
        cases held
        cases Option.some.inj read
        exact member

/-! The callbacks -/

/-- The rule of the two look-ups of the header callback. -/
theorem tends_lookUp {ε α : Type} (lib : ThirdParty) (rounds : Nat) (f : CacheFilter)
    {read : HostProg (Except ε α)} {found : α → HostProg (CacheFilter × Action)}
    (reads : ∀ ids spared base, Triple Host.exec (Attended ids spared base) read fun r h =>
      Attended ids spared base h ∧ ∀ a, r = .ok a → Tends (found a)) :
    Tends (f.lookUp lib rounds read found) := by
  intro ids spared base
  refine triple_bind (reads ids spared base) fun first => triple_given fun goesOn => ?_
  cases first with
  | ok a => exact goesOn a rfl ids spared base
  | error =>
    refine triple_bind (tends_ask (.incrementMetric .cacheMisses 1) trivial ids spared base) fun _ => ?_
    refine triple_bind (tends_setCalloutLock rounds f ids spared base) fun lock => ?_
    match lock with
    | .ok .lockAcquired => exact tends_doAuthCall lib f ids spared base
    | .ok .addedToWaitlist => exact tends_done _ ids spared base
    | .ok .responseCameFirst =>
      refine triple_bind (reads ids spared base) fun second => triple_given fun goesOn => ?_
      cases second with
      | ok a => exact goesOn a rfl ids spared base
      | error => exact tends_inRequestFailure f ids spared base
    | .error _ => exact tends_inRequestFailure f ids spared base

theorem tends_lookupApplication (lib : ThirdParty) (rounds : Nat) (f : CacheFilter) :
    Tends (f.lookupApplication lib rounds) := by
  rw [lookupApplication_eq]
  refine tends_lookUp lib rounds f fun ids spared base => ?_
  refine (triple_readApart f.state.cacheKey).mono (fun _ attended => attended) fun r h read => ⟨read.1, ?_⟩
  exact fun found is => tends_cacheHitOrFail (read.2 found.1 found.2 is) f found.2

theorem tends_onHttpRequestHeaders (lib : ThirdParty) (rounds : Nat) (f : CacheFilter)
    (headers : Str → Option Str) : Tends (f.onHttpRequestHeaders lib rounds headers) := by
  unfold CacheFilter.onHttpRequestHeaders
  split
  · exact tends_only ⟨trivial, fun _ => ⟨trivial, fun _ => trivial⟩⟩
  · dsimp only
    split
    · rw [onUserKey_eq]
      refine tends_lookUp lib rounds _ fun ids spared base => ?_
      refine (tends_getAppIdFromCache _ ids spared base).mono (fun _ attended => attended) fun r h attended => ?_
      exact ⟨attended, fun appId _ => tends_lookupApplication lib rounds _⟩
    · exact tends_lookupApplication lib rounds _

theorem tends_recordAppId {f : CacheFilter}
    (maps : ∀ userKey, f.state.cacheKey.appId = .userKey userKey → Apart userKey) (appId : AppId) :
    Tends (f.recordAppId appId) := by
  unfold CacheFilter.recordAppId
  split
  · rename_i userKey kind
    intro ids spared base h attended
    refine alone_bind.mpr (alone_perform_bind.mpr ?_)
    have mapped : Attended ids spared base (Host.exec (.setSharedData userKey (some (.appId appId)) none) h).2 :=
      attended.set_apart (maps userKey kind) (by rintro _ ⟨⟩)
    simp only [Host.exec, h.shared.set_overwrite _ _ SharedData.no_cas] at mapped ⊢
    rintro _ ⟨⟩
    exact mapped
  · exact tends_done _

theorem tends_handleAuthResponse {f : CacheFilter} {response : AuthorizationStatus}
    (maps : ∀ userKey, response.Named → f.state.cacheKey.appId = .userKey userKey → Apart userKey)
    (forms : ∀ app, rebuilt response = some app → Apart app.cacheKey.asString) :
    Tends (f.handleAuthResponse response) := by
  unfold CacheFilter.handleAuthResponse
  cases ids : CacheFilter.authResponseIds response with
  | error e => exact tends_done _
  | ok carried =>
    obtain ⟨appKeys, appId, serviceId⟩ := carried
    refine tends_bind (tends_recordAppId (fun userKey => maps userKey ⟨_, ids⟩) appId) fun recorded => ?_
    match recorded with
    | (f', .error e) => exact tends_done _
    | (f', .ok ()) =>
      dsimp only
      cases formed : CacheFilter.authResponseApplication response appKeys appId serviceId with
      | none => exact tends_done _
      | some app =>
        refine tends_bind (tends_handleCacheHit (forms app ((rebuilt_eq ids).trans formed)) _ 0) fun hit => ?_
        match hit with
        | (_, .ok ()) | (_, .error e) => exact tends_done _

theorem tends_onAuthorization {f : CacheFilter} {authorization : Authorization}
    (suits : ∀ response, authorization = .status response →
      (response.isAuthorized || response.usageReports.isSome) = true →
      (∀ userKey, response.Named → f.state.cacheKey.appId = .userKey userKey → Apart userKey) ∧
        ∀ app, rebuilt response = some app → Apart app.cacheKey.asString) :
    Tends (f.onAuthorization authorization) := by
  cases authorization with
  | error code => exact tends_bind (tends_requestProcessFailure f) fun _ => tends_done _
  | status response =>
    unfold CacheFilter.onAuthorization
    dsimp only
    split
    · rename_i handled
      obtain ⟨maps, forms⟩ := suits response rfl handled
      refine tends_bind (tends_handleAuthResponse maps forms) fun result => ?_
      match result with
      | (f', .error e) => exact tends_bind (tends_requestProcessFailure f') fun _ => tends_done _
      | (_, .ok ()) => exact tends_done _
    · refine tends_bind (tends_ask (.incrementMetric .unauthorized 1) trivial) fun _ => ?_
      cases response.reason with
      | none => exact tends_trap
      | some reason => exact tends_only ⟨trivial, fun _ => trivial⟩

theorem tends_onHttpCallResponse {f : CacheFilter} {response : CallResponse}
    (suits : Suits (fun app => Apart app.cacheKey.asString) Apart f response) :
    Tends (f.onHttpCallResponse response) := by
  have fails : Tends (f.requestProcessFailure >>= fun f =>
      (pure (f, some (.handleFailure 0)) : HostProg (CacheFilter × Option WaiterAction))) :=
    tends_bind (tends_requestProcessFailure f) fun _ => tends_done _
  have result : ∀ status, response.status = some status → Tends (f.onCallResult status response.body) := by
    intro status is
    unfold CacheFilter.onCallResult
    split
    · rename_i arrived
      match body : response.body with
      | none | some .unparsable => exact fails
      | some .notUtf8 => exact tends_trap
      | some (.parsed authorization) =>
        refine tends_onAuthorization fun data same handled => ?_
        have carries : response.Carries data := by
          refine ⟨fun timeout => arrived ?_, body.trans (by rw [same]), handled⟩
          exact Option.some.inj (is.symm.trans timeout)
        exact ⟨fun userKey => suits.maps data userKey carries, fun app => suits.forms data app carries⟩
    · exact tends_bind (tends_ask (.incrementMetric .authorizeTimeouts 1) trivial) fun _ => fails
  unfold CacheFilter.onHttpCallResponse
  cases is : response.status with
  | none => exact tends_trap
  | some status =>
    refine tends_bind (result status is) fun decided => ?_
    match decided with
    | (f', none) => exact tends_done _
    | (f', some action) => exact tends_bind (tends_freeCalloutLock _ action) fun _ => tends_done f'

theorem tends_lookupForWaiter (context : CacheFilter) : Tends (CacheFilterRoot.lookupForWaiter context) := by
  refine tends_lookup (fun app cas isApart => ?_) fun _ => tends_done _
  refine tends_bind (tends_handleCacheHit isApart context cas) fun hit => ?_
  match hit with
  | (context, .error e) => exact tends_bind (tends_requestProcessFailure context) fun _ => tends_done _
  | (_, .ok ()) => exact tends_ask .resumeHttpRequest trivial

theorem tends_wakeWaiter (context : CacheFilter) (action : WaiterAction) :
    Tends (CacheFilterRoot.wakeWaiter context action) := by
  cases action with
  | handleFailure => exact tends_bind (tends_requestProcessFailure context) fun _ => tends_done _
  | handleCacheHit =>
    show Tends (CacheFilterRoot.resumeCacheHit context)
    unfold CacheFilterRoot.resumeCacheHit
    split
    · refine tends_bind (tends_getAppIdFromCache _) fun r => ?_
      cases r with
      | ok appId => exact tends_lookupForWaiter _
      | error => exact tends_done _
    · exact tends_lookupForWaiter context

end ThreescaleCache
