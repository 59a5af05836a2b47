import ThreescaleCache.CacheFilterRoot
import ThreescaleCache.LimitCheckFacts

namespace ThreescaleCache
open Interaction

/-! How a party that follows a protocol gets through the cache hit flow. -/

/-- Reads of shared data, and writes of the memory counter. -/
inductive SideCall : HostCall → Prop
  | read (key : Str) : SideCall (.getSharedData key)
  | count (size : UInt64) (cas : Option Nat) :
      SideCall (.setSharedData sharedMemoryCounterKey (some (.memoryCounter size)) cas)

/-- Reads and writes of the memory counter. -/
inductive CounterCall : HostCall → Prop
  | read : CounterCall (.getSharedData sharedMemoryCounterKey)
  | write (size : UInt64) (cas : Option Nat) :
      CounterCall (.setSharedData sharedMemoryCounterKey (some (.memoryCounter size)) cas)

theorem side_counterCall {c : HostCall} (counter : CounterCall c) : SideCall c := by
  cases counter with
  | read => exact .read _
  | write size cas => exact .count size cas

theorem only_writeSharedMemorySize (delta : Int32) (memoryUsed : UInt64) (cas : Nat) :
    (writeSharedMemorySize delta memoryUsed cas).Only CounterCall := by
  unfold writeSharedMemorySize
  split
  · trivial
  · refine ⟨.write _ _, fun r => ?_⟩
    cases r <;> trivial

theorem only_updateSharedMemorySize (delta : Int32) :
    (updateSharedMemorySize delta).Only CounterCall := by
  refine ⟨.read, fun r => ?_⟩
  match r with
  | .error e => trivial
  | .ok (some value, some cas) =>
    dsimp only [Prog.bind]
    cases value.counter with
    | none => trivial
    | some size => exact only_writeSharedMemorySize delta size cas
  | .ok (some _, none) | .ok (none, _) =>
    refine ⟨.write _ _, fun r => ?_⟩
    cases r with
    | ok => exact only_writeSharedMemorySize delta _ 1
    | error e => trivial

theorem only_retryUpdate_counter (delta : Int32) (tries : Nat) :
    (retryUpdateSharedMemorySize delta tries).Only CounterCall := by
  induction tries with
  | zero => trivial
  | succ tries ih =>
    refine Prog.only_bind (only_updateSharedMemorySize delta) fun r => ?_
    cases r with
    | ok => trivial
    | error e => exact ih

theorem only_retryUpdateSharedMemorySize (delta : Int32) (tries : Nat) :
    (retryUpdateSharedMemorySize delta tries).Only SideCall :=
  (only_retryUpdate_counter delta tries).mono fun _ => side_counterCall

theorem only_getCachePairSize (key : Str) : (getCachePairSize key).Only SideCall := by
  refine ⟨.read key, fun r => ?_⟩
  match r with
  | .error _ | .ok (some _, _) | .ok (none, _) => trivial

theorem only_getApplicationFromCache (key : CacheKey) :
    (getApplicationFromCache key).Only SideCall := by
  refine ⟨.read _, fun r => ?_⟩
  match r with
  | .error _ => trivial
  | .ok (some (.application _), some _) => trivial
  | .ok (some (.memoryCounter _), some _) => trivial
  | .ok (some (.appId _), some _) => trivial
  | .ok (some (.calloutLock _), some _) => trivial
  | .ok (some _, none) | .ok (none, _) => trivial

theorem only_getAppIdFromCache (userKey : UserKey) : (getAppIdFromCache userKey).Only SideCall := by
  rw [getAppIdFromCache_eq]
  exact ⟨.read _, fun _ => trivial⟩

theorem getAppIdFromCache_path {userKey : UserKey} {found : Except CacheError AppId} {t : List HostEvent}
    (path : Prog.Path (getAppIdFromCache userKey) t (.done found)) :
    ∃ reply, t = [⟨.getSharedData userKey, reply⟩] ∧ found = appIdRead reply := by
  rw [getAppIdFromCache_eq] at path
  cases path with
  | @next _ _ reply t _ rest =>
    cases rest
    exact ⟨reply, rfl, rfl⟩

/-- The calls of the loop for the lock on `key`, on behalf of `context`. -/
inductive TryLockCall (context : CacheFilter) (key : Str) : HostCall → Prop
  | read : TryLockCall context key (.getSharedData key)
  | write (v : CalloutLockValue) (cas : Option Nat) :
      TryLockCall context key (.setSharedData key (some (.calloutLock v)) cas)
  | wait : TryLockCall context key (.insertWaitingContext context)
  | queue (name : Str) : TryLockCall context key (.resolveSharedQueue name)

theorem only_setCalloutLockLoop (context : CacheFilter) (key : Str) (waiter : CalloutWaiter)
    (rounds : Nat) (seen : Option Nat) :
    (setCalloutLockLoop context key waiter rounds seen).Only (TryLockCall context key) := by
  induction rounds generalizing seen with
  | zero => trivial
  | succ rounds ih =>
    unfold setCalloutLockLoop
    refine ⟨.read, fun reply => ?_⟩
    match reply with
    | .error e => trivial
    | .ok (none, none) | .ok (some _, none) =>
      refine ⟨.write _ _, fun set => ?_⟩
      match set with
      | .ok () => trivial
      | .error .casMismatch => exact ih seen
      | .error .notFound | .error .badArgument | .error .empty | .error .internalFailure => trivial
    | .ok (some bytes, some cas) =>
      dsimp only [Prog.bind]
      cases bytes.lock with
      | none => trivial
      | some stored =>
        refine ⟨.write _ _, fun set => ?_⟩
        match set with
        | .error .casMismatch => exact ih _
        | .ok () => exact ⟨.wait, fun _ => trivial⟩
        | .error .notFound | .error .badArgument | .error .empty | .error .internalFailure =>
          exact ⟨.wait, fun _ => trivial⟩
    | .ok (none, some cas) =>
      cases seen with
      | some owner => trivial
      | none =>
        refine ⟨.write _ _, fun set => ?_⟩
        match set with
        | .ok () => trivial
        | .error .casMismatch => exact ih _
        | .error .notFound | .error .badArgument | .error .empty | .error .internalFailure => trivial

theorem only_setCalloutLock (rounds : Nat) (f : CacheFilter) :
    (setCalloutLock rounds f).Only (TryLockCall f (calloutLockKey f.state.cacheKey)) := by
  refine ⟨.queue _, fun queue => ?_⟩
  cases queue with
  | none => trivial
  | some queueId => exact only_setCalloutLockLoop f _ _ rounds none

/-- The calls that freeing a callout-lock may make. -/
inductive FreeCall (key : Str) : HostCall → Prop
  | read : FreeCall key (.getSharedData key)
  | notify (queueId : Nat) (action : WaiterAction) :
      FreeCall key (.enqueueSharedQueue queueId (.waiterAction action))
  | erase : FreeCall key (.setSharedData key none none)

theorem only_notifyWaiters (key : Str) (action : WaiterAction) (waiters : List CalloutWaiter) :
    (notifyWaiters action waiters).Only (FreeCall key) := by
  induction waiters with
  | nil => trivial
  | cons waiter rest ih => exact ⟨.notify _ _, fun _ => ih⟩

theorem only_freeCalloutLock (cacheKey : CacheKey) (action : WaiterAction) :
    (freeCalloutLockAndNotifyWaiters cacheKey action).Only (FreeCall (calloutLockKey cacheKey)) := by
  refine ⟨.read, fun r => ?_⟩
  match r with
  | .error _ => trivial
  | .ok (none, _) => trivial
  | .ok (some bytes, _) =>
    dsimp only [Prog.bind]
    cases bytes.lock with
    | none => trivial
    | some value =>
      refine Prog.only_bind (only_notifyWaiters _ action value.waiters) fun _ => ⟨.erase, fun r => ?_⟩
      cases r <;> trivial

/-- The calls that file an application under its own key. -/
inductive FilingCall : HostCall → Prop
  | side {c : HostCall} (side : SideCall c) : FilingCall c
  | application (app : Application) (cas : Nat) :
      FilingCall (.setSharedData app.cacheKey.asString (some (.application app)) (some cas))

theorem only_setApplicationToCache (app : Application) (cas : Nat) :
    (setApplicationToCache app.cacheKey.asString app cas).Only FilingCall := by
  refine Prog.only_bind ((only_getCachePairSize _).mono fun _ => .side) fun size => ?_
  cases size with
  | error e => trivial
  | ok prevMemoryUsage =>
    refine ⟨.application app cas, fun reply => ?_⟩
    cases reply with
    | error e => trivial
    | ok =>
      show Prog.Only FilingCall (retryUpdateSharedMemorySize _ 3 >>= _)
      exact Prog.only_bind ((only_retryUpdateSharedMemorySize _ 3).mono fun _ => .side) fun _ => trivial

/-- The calls of a limit check. -/
inductive CheckCall : HostCall → Prop
  | filing {c : HostCall} (filing : FilingCall c) : CheckCall c
  | checked (result : Except UpdateMetricsError RateLimitStatus) : CheckCall (.limitChecked result)

theorem only_limitCheckAndUpdate (data : ThreescaleData) (app : Application) (cas : Nat)
    (now : Duration) : (limitCheckAndUpdateApplication data app cas now).Only CheckCall := by
  unfold limitCheckAndUpdateApplication
  cases verdict : limitCheck now data.metrics.entries app {} with
  | trap => trivial
  | overflow | limited => exact ⟨.checked _, fun _ => trivial⟩
  | pass app' info =>
    refine Prog.only_bind ((only_setApplicationToCache app' cas).mono fun _ => .filing) fun set => ?_
    cases set with
    | error e => exact ⟨.checked _, fun _ => trivial⟩
    | ok => exact ⟨.checked _, fun _ => trivial⟩

theorem only_onlyIf {A : HostCall → Prop} {c : Prop} [Decidable c] {p : HostProg Unit} (only : p.Only A) :
    (onlyIf c p).Only A := by
  unfold onlyIf
  split
  · exact only
  · trivial

theorem only_reportToSingleton {A : HostCall → Prop}
    (reports : ∀ queueId message, A (.enqueueSharedQueue queueId (.message message))) (f : CacheFilter)
    (queueId : Nat) (now : Duration) : (f.reportToSingleton queueId now).Only A := by
  refine ⟨reports _ _, fun reply => ?_⟩
  cases reply with
  | ok => trivial
  | error e => trivial

/-- The calls that give up on a request. -/
inductive FailureCall : HostCall → Prop
  | deny : FailureCall (.sendHttpResponse 403 (some CacheFilter.accessForbidden))
  | resume : FailureCall .resumeHttpRequest

theorem only_inRequestFailure (f : CacheFilter) : f.inRequestFailure.Only FailureCall := by
  unfold CacheFilter.inRequestFailure
  dsimp only
  split
  · exact ⟨.deny, fun _ => trivial⟩
  · trivial

theorem only_requestProcessFailure (f : CacheFilter) : f.requestProcessFailure.Only FailureCall := by
  unfold CacheFilter.requestProcessFailure onlyIf
  dsimp only
  split
  · exact ⟨.deny, fun _ => ⟨.resume, fun _ => trivial⟩⟩
  · exact ⟨.resume, fun _ => trivial⟩

variable {L : Type} {P : HostProtocol L} {le : L → L → Prop}

/-- The failure that `setApplicationToCache` reports for a refused write. -/
def setOutcome (key : Str) : Except Status Unit → Except SetFailure Unit
  | .ok () => .ok ()
  | .error e => .error (.set key (.proxyStatus e))

/-- What a party knows is kept by all that setting an application does beside
the write itself. -/
structure Sides (P : HostProtocol L) (le : L → L → Prop) : Prop where
  pairSize : ∀ key ℓ, Follows P (fun ℓ' _ => le ℓ ℓ') (getCachePairSize key) ℓ
  counted : ∀ delta tries ℓ,
    Follows P (fun ℓ' _ => le ℓ ℓ') (retryUpdateSharedMemorySize delta tries) ℓ

theorem Sides.of_keeps (keeps : P.Keeps le SideCall) : Sides P le where
  pairSize := fun key ℓ => keeps.follows (only_getCachePairSize key) ℓ
  counted := fun delta tries ℓ => keeps.follows (only_retryUpdateSharedMemorySize delta tries) ℓ

theorem follows_setApplicationToCache {key : Str} {app : Application} {cas : Nat}
    {Q : L → Except SetFailure Unit → Prop} {ℓ : L} (sides : Sides P le)
    (grows : ∀ ℓ ℓ' r, le ℓ ℓ' → Q ℓ r → Q ℓ' r) (pairSize : ∀ e, Q ℓ (.error (.pairSize e)))
    (write : ∀ ℓ₁, le ℓ ℓ₁ → P.may ℓ₁ (.setSharedData key (some (.application app)) (some cas)) ∧
      ∀ r ℓ₂, P.next ℓ₁ (.setSharedData key (some (.application app)) (some cas)) r = some ℓ₂ →
        Q ℓ₂ (setOutcome key r)) :
    Follows P Q (setApplicationToCache key app cas) ℓ := by
  refine follows_bind.mpr ((sides.pairSize key ℓ).mono fun ℓ₁ size later => ?_)
  cases size with
  | error e => exact grows ℓ ℓ₁ _ later (pairSize e)
  | ok prevMemoryUsage =>
    obtain ⟨may, next⟩ := write ℓ₁ later
    refine ⟨may, fun r ℓ₂ known => ?_⟩
    have outcome := next r ℓ₂ known
    cases r with
    | error e => exact outcome
    | ok =>
      show Follows P Q (retryUpdateSharedMemorySize _ 3 >>= fun _ => pure (.ok ())) ℓ₂
      refine follows_bind.mpr ((sides.counted _ 3 ℓ₂).mono ?_)
      intro ℓ₃ _ later
      exact grows ℓ₂ ℓ₃ _ later outcome

/-- What a limit check returns, once the write of the application that passed
it is answered. -/
def updateOutcome (key : Str) (info : RateLimitInfo) :
    Except Status Unit → Except UpdateMetricsError RateLimitStatus
  | .ok () => .ok (.authorized info)
  | .error e => .error (.cacheUpdateFail (.set key (.proxyStatus e)))

def noteSet (info : RateLimitInfo) :
    Except SetFailure Unit → Except UpdateMetricsError RateLimitStatus
  | .ok () => .ok (.authorized info)
  | .error e => .error (.cacheUpdateFail e)

/-- The rule for a limit check. `N ℓ result` is what it takes to note `result`
with the knowledge `ℓ`. -/
theorem follows_limitCheckAndUpdate {data : ThreescaleData} {app : Application} {cas : Nat}
    {now : Duration} {Q : L → Except UpdateMetricsError RateLimitStatus → Prop} {ℓ : L}
    (sides : Sides P le)
    (grows : ∀ ℓ ℓ' r, le ℓ ℓ' → Follows P Q (noteLimitCheck r) ℓ → Follows P Q (noteLimitCheck r) ℓ')
    (overflow : limitCheck now data.metrics.entries app {} = .overflow →
      Follows P Q (noteLimitCheck (.error .durationOverflow)) ℓ)
    (limited : ∀ app' info, limitCheck now data.metrics.entries app {} = .limited app' info →
      Follows P Q (noteLimitCheck (.ok (.rateLimited info))) ℓ)
    (pairSize : ∀ app' info, limitCheck now data.metrics.entries app {} = .pass app' info → ∀ e,
      Follows P Q (noteLimitCheck (.error (.cacheUpdateFail (.pairSize e)))) ℓ)
    (write : ∀ app' info, limitCheck now data.metrics.entries app {} = .pass app' info →
      ∀ ℓ₁, le ℓ ℓ₁ →
        P.may ℓ₁ (.setSharedData app.cacheKey.asString (some (.application app')) (some cas)) ∧
        ∀ r ℓ₂, P.next ℓ₁
            (.setSharedData app.cacheKey.asString (some (.application app')) (some cas)) r = some ℓ₂ →
          Follows P Q (noteLimitCheck (updateOutcome app.cacheKey.asString info r)) ℓ₂) :
    Follows P Q (limitCheckAndUpdateApplication data app cas now) ℓ := by
  unfold limitCheckAndUpdateApplication
  cases verdict : limitCheck now data.metrics.entries app {} with
  | trap => trivial
  | overflow => exact overflow verdict
  | limited app' info => exact limited app' info verdict
  | pass app' info =>
    dsimp only
    rw [limitCheck_pass_cacheKey verdict]
    have set : Follows P (fun ℓ₁ r => Follows P Q (noteLimitCheck (noteSet info r)) ℓ₁)
        (setApplicationToCache app.cacheKey.asString app' cas) ℓ := by
      refine follows_setApplicationToCache sides (fun ℓ₁ ℓ₂ r => grows ℓ₁ ℓ₂ _)
        (pairSize app' info verdict) fun ℓ₁ later => ?_
      obtain ⟨may, next⟩ := write app' info verdict ℓ₁ later
      refine ⟨may, fun r ℓ₂ known => ?_⟩
      have outcome := next r ℓ₂ known
      cases r <;> exact outcome
    refine follows_bind.mpr (set.mono fun ℓ₁ r here => ?_)
    cases r <;> exact here

/-- The rule for a limit check in a protocol that takes no interest in how an
application is filed: what is learnt is the result. -/
theorem follows_limitChecked {data : ThreescaleData} {app : Application} {cas : Nat} {now : Duration}
    {ℓ : L} (keeps : P.Keeps le FilingCall) (may : ∀ ℓ r, P.may ℓ (.limitChecked r)) :
    Follows P (fun ℓ' r => ∃ ℓ₁, le ℓ ℓ₁ ∧ P.next ℓ₁ (.limitChecked r) () = some ℓ')
      (limitCheckAndUpdateApplication data app cas now) ℓ := by
  have noted : ∀ ℓ₁ r, le ℓ ℓ₁ → Follows P
      (fun ℓ' r => ∃ ℓ₁, le ℓ ℓ₁ ∧ P.next ℓ₁ (.limitChecked r) () = some ℓ') (noteLimitCheck r) ℓ₁ :=
    fun ℓ₁ r later => ⟨may ℓ₁ r, fun _ ℓ' known => ⟨ℓ₁, later, known⟩⟩
  unfold limitCheckAndUpdateApplication
  cases limitCheck now data.metrics.entries app {} with
  | trap => trivial
  | overflow => exact noted ℓ _ (keeps.refl ℓ)
  | limited app' info => exact noted ℓ _ (keeps.refl ℓ)
  | pass app' info =>
    refine follows_bind.mpr ((keeps.follows (only_setApplicationToCache app' cas) ℓ).mono ?_)
    intro ℓ₁ r later
    cases r with
    | ok => exact noted ℓ₁ _ later
    | error e => exact noted ℓ₁ _ later

/-- What is to hold once the application is read again after a refused write:
`again` with what was read, or `failed` with the error. -/
def Refetched (again : L → Application → Nat → Prop) (failed : L → CacheError → Prop) (ℓ : L) :
    Except CacheError (Application × Nat) → Prop
  | .ok (app, cas) => again ℓ app cas
  | .error e => failed ℓ e

/-- The rule for the loop of tries. `Inv` is what holds before a try, with
the number of tries that are left. -/
theorem follows_cacheHitTries (f : CacheFilter) {queueId : Nat} {now : Duration}
    {Q : L → CacheFilter × Except CacheHitError Unit → Prop}
    (Inv : Nat → L → Application → Nat → Prop)
    (last : ∀ ℓ app cas, Inv 0 ℓ app cas → Follows P Q f.afterLastTry ℓ)
    (try_ : ∀ tries ℓ app cas, Inv (tries + 1) ℓ app cas →
      Follows P (fun ℓ₁ result => match result with
        | .ok (.authorized info) => Follows P Q (f.onAuthorizedTry queueId now cas info) ℓ₁
        | .ok (.rateLimited info) => Follows P Q (f.onRateLimitedTry info) ℓ₁
        | .error (.cacheUpdateFail _) =>
          Follows P (Refetched (Inv tries) fun ℓ₂ e => Q ℓ₂ (f, .error (.appFetchFail e)))
            (getApplicationFromCache f.state.cacheKey) ℓ₁
        | .error .durationOverflow => Q ℓ₁ (f, .error (.metricsCheckFail .durationOverflow)))
      (limitCheckAndUpdateApplication f.state.reqData app cas now) ℓ)
    {tries : Nat} {ℓ : L} {app : Application} {cas : Nat} (inv : Inv tries ℓ app cas) :
    Follows P Q (CacheFilter.cacheHitTries queueId now tries f app cas) ℓ := by
  induction tries generalizing ℓ app cas with
  | zero => exact last ℓ app cas inv
  | succ tries ih =>
    refine follows_bind.mpr ((try_ tries ℓ app cas inv).mono fun ℓ₁ result here => ?_)
    match result with
    | .ok (.authorized info) => exact here
    | .ok (.rateLimited info) => exact here
    | .error .durationOverflow => exact here
    | .error (.cacheUpdateFail _) =>
      refine follows_bind.mpr (Follows.mono here fun ℓ₂ fetched later => ?_)
      match fetched with
      | .ok (_, _) => exact ih later
      | .error e => exact later

/-- The rule for trying for the lock on `key`, in a protocol that learns nothing
from the reads and writes of the loop. -/
theorem follows_setCalloutLockLoop {context : CacheFilter} {key : Str} {waiter : CalloutWaiter}
    {Q : L → Except UniqueCalloutError SetCalloutLockStatus → Prop} {ℓ : L}
    (read : Follows P (fun ℓ' _ => ℓ' = ℓ) (getSharedData key) ℓ)
    (write : ∀ v cas, Follows P (fun ℓ' _ => ℓ' = ℓ) (setSharedData key (some (.calloutLock v)) cas) ℓ)
    (waits : Follows P Q (ask (.insertWaitingContext context) >>= fun _ => pure (.ok .addedToWaitlist)) ℓ)
    (settled : ∀ status, status ≠ .ok .addedToWaitlist → Q ℓ status) (rounds : Nat) (seen : Option Nat) :
    Follows P Q (setCalloutLockLoop context key waiter rounds seen) ℓ := by
  have acquired : Q ℓ (.ok .lockAcquired) := settled _ (by simp)
  have failed : ∀ e, Q ℓ (.error e) := fun e => settled _ (by simp)
  induction rounds generalizing seen with
  | zero => trivial
  | succ rounds ih =>
    refine follows_bind.mpr (read.mono fun ℓ₁ reply same => ?_)
    subst same
    match reply with
    | .error e => exact failed _
    | .ok (none, none) | .ok (some _, none) =>
      refine follows_bind.mpr ((write _ _).mono fun ℓ₂ set same => ?_)
      subst same
      match set with
      | .ok () => exact acquired
      | .error .casMismatch => exact ih seen
      | .error .notFound | .error .badArgument | .error .empty | .error .internalFailure => exact failed _
    | .ok (some bytes, some cas) =>
      dsimp only
      cases bytes.lock with
      | none => exact failed _
      | some stored =>
        refine follows_bind.mpr ((write _ _).mono fun ℓ₂ set same => ?_)
        subst same
        match set with
        | .error .casMismatch => exact ih _
        | .ok () => exact waits
        | .error .notFound | .error .badArgument | .error .empty | .error .internalFailure => exact waits
    | .ok (none, some cas) =>
      cases seen with
      | some owner => exact settled _ (by simp)
      | none =>
        refine follows_bind.mpr ((write _ _).mono fun ℓ₂ set same => ?_)
        subst same
        match set with
        | .ok () => exact acquired
        | .error .casMismatch => exact ih _
        | .error .notFound | .error .badArgument | .error .empty | .error .internalFailure => exact failed _

/-- The two look-ups of the header callback are one: after a miss the lock
decides, and where the response came first, `read` is read again. -/
def CacheFilter.lookUp {ε α : Type} (lib : ThirdParty) (rounds : Nat) (f : CacheFilter)
    (read : HostProg (Except ε α)) (found : α → HostProg (CacheFilter × Action)) :
    HostProg (CacheFilter × Action) := do
  match ← read with
  | .ok a => found a
  | .error _ => do
    incrementStat .cacheMisses
    match ← setCalloutLock rounds f with
    | .ok .lockAcquired => f.doAuthCall lib
    | .ok .addedToWaitlist => pure (f, .pause)
    | .ok .responseCameFirst =>
      match ← read with
      | .ok a => found a
      | .error _ => f.inRequestFailure
    | .error _ => f.inRequestFailure

theorem lookupApplication_eq (lib : ThirdParty) (rounds : Nat) (f : CacheFilter) :
    f.lookupApplication lib rounds = f.lookUp lib rounds (getApplicationFromCache f.state.cacheKey)
      fun found => f.cacheHitOrFail found.1 found.2 := by
  unfold CacheFilter.lookupApplication CacheFilter.lookUp
  refine congrArg (getApplicationFromCache f.state.cacheKey >>= ·) (funext fun first => ?_)
  cases first with
  | ok found => rfl
  | error e =>
    refine congrArg (incrementStat .cacheMisses >>= ·) (funext fun _ => ?_)
    refine congrArg (setCalloutLock rounds f >>= ·) (funext fun status => ?_)
    match status with
    | .ok .lockAcquired => rfl
    | .ok .addedToWaitlist => rfl
    | .error _ => rfl
    | .ok .responseCameFirst =>
      refine congrArg (getApplicationFromCache f.state.cacheKey >>= ·) (funext fun second => ?_)
      cases second with
      | ok found => rfl
      | error e => rfl

theorem onUserKey_eq (lib : ThirdParty) (rounds : Nat) (f : CacheFilter) (userKey : UserKey) :
    f.onUserKey lib rounds userKey = f.lookUp lib rounds (getAppIdFromCache userKey)
      fun appId => (f.mapped appId).lookupApplication lib rounds := by
  unfold CacheFilter.onUserKey CacheFilter.lookUp
  refine congrArg (getAppIdFromCache userKey >>= ·) (funext fun first => ?_)
  cases first with
  | ok appId => rfl
  | error e =>
    refine congrArg (incrementStat .cacheMisses >>= ·) (funext fun _ => ?_)
    refine congrArg (setCalloutLock rounds f >>= ·) (funext fun status => ?_)
    match status with
    | .ok .lockAcquired => rfl
    | .ok .addedToWaitlist => rfl
    | .error _ => rfl
    | .ok .responseCameFirst =>
      refine congrArg (getAppIdFromCache userKey >>= ·) (funext fun second => ?_)
      cases second with
      | ok appId => rfl
      | error e => rfl

/-- What is to hold once the lock has been tried for. -/
def Tried (P : HostProtocol L) (Q : L → CacheFilter × Action → Prop) (I : L → Prop) (lib : ThirdParty)
    (f : CacheFilter) (ℓ : L) : Except UniqueCalloutError SetCalloutLockStatus → Prop
  | .ok .lockAcquired => Follows P Q (f.doAuthCall lib) ℓ
  | .ok .addedToWaitlist => Q ℓ (f, .pause)
  | .ok .responseCameFirst => I ℓ
  | .error _ => Follows P Q f.inRequestFailure ℓ

/-- The rule for a look-up. `I` is what holds before something is read, and
until the lock has been tried for. -/
theorem follows_lookUp {ε α : Type} {Q : L → CacheFilter × Action → Prop} (I : L → Prop) {lib : ThirdParty}
    {rounds : Nat} {f : CacheFilter} {read : HostProg (Except ε α)}
    {found : α → HostProg (CacheFilter × Action)}
    (reads : ∀ ℓ, I ℓ →
      Follows P (fun ℓ' r => I ℓ' ∧ ∀ a, r = .ok a → Follows P Q (found a) ℓ') read ℓ)
    (missed : ∀ ℓ, I ℓ → Follows P (fun ℓ' _ => I ℓ') (incrementStat .cacheMisses) ℓ)
    (locks : ∀ ℓ, I ℓ → Follows P (Tried P Q I lib f) (setCalloutLock rounds f) ℓ)
    (fails : ∀ ℓ, I ℓ → Follows P Q f.inRequestFailure ℓ) {ℓ : L} (now : I ℓ) :
    Follows P Q (f.lookUp lib rounds read found) ℓ := by
  refine follows_bind.mpr ((reads ℓ now).mono fun ℓ₁ first here => ?_)
  obtain ⟨still, hit⟩ := here
  cases first with
  | ok a => exact hit a rfl
  | error e =>
    refine follows_bind.mpr ((missed ℓ₁ still).mono fun ℓ₂ _ still₂ => ?_)
    refine follows_bind.mpr ((locks ℓ₂ still₂).mono fun ℓ₃ status tried => ?_)
    match status with
    | .ok .lockAcquired => exact tried
    | .ok .addedToWaitlist => exact tried
    | .error _ => exact tried
    | .ok .responseCameFirst =>
      refine follows_bind.mpr ((reads ℓ₃ tried).mono fun ℓ₄ second here => ?_)
      obtain ⟨still₄, hit⟩ := here
      cases second with
      | ok a => exact hit a rfl
      | error e => exact fails ℓ₄ still₄

/-! The metrics of a request survive the hierarchy: where a child is found
the mutable borrow panics, since the inner loop still borrows the map. -/

theorem addChildren_eq {parent : Str} {children : List Str}
    {entries : List (Sigma fun _ : Str => UInt64)} {cell cell' : RefCell Metrics}
    (borrowed : cell.shared ≠ 0) (run : addChildren parent children entries cell = some cell') :
    cell' = cell := by
  induction entries with
  | nil => exact (Option.some.inj run).symm
  | cons entry rest ih =>
    obtain ⟨metric, hits⟩ := entry
    unfold addChildren at run
    split at run
    · simp only [RefCell.borrowMut, if_neg borrowed, Option.bind_eq_bind, Option.bind_none,
        reduceCtorEq] at run
    · exact ih run

theorem addParents_eq {entries : List (Sigma fun _ : Str => List Str)} {cell cell' : RefCell Metrics}
    (run : addParents entries cell = some cell') : cell' = cell := by
  induction entries generalizing cell with
  | nil => exact (Option.some.inj run).symm
  | cons entry rest ih =>
    obtain ⟨parent, children⟩ := entry
    obtain ⟨inner, children_, later⟩ := Option.bind_eq_some_iff.mp run
    have kept : inner = cell.borrow := addChildren_eq (Nat.succ_ne_zero _) children_
    subst kept
    exact ih later

theorem addHierarchyToMetrics_eq {hierarchy : Hierarchy} {metrics metrics' : Metrics}
    (run : addHierarchyToMetrics hierarchy metrics = some metrics') : metrics' = metrics := by
  obtain ⟨cell, parents, value⟩ := Option.map_eq_some_iff.mp run
  rw [← value, addParents_eq parents]
  rfl

/-- The cache hit flow, with the metrics as they are. -/
theorem handleCacheHit_eq (f : CacheFilter) (app : Application) (cas : Nat) :
    f.handleCacheHit app cas = (do
      incrementStat .cacheHits
      match ← resolveSharedQueue queueName with
      | none => pure (f, .error .mqNotFound)
      | some queueId =>
        match ← getCurrentTime with
        | none => pure (f, .error .timeConversionErr)
        | some now =>
          match addHierarchyToMetrics app.metricHierarchy f.state.reqData.metrics with
          | none => .trap
          | some _ => CacheFilter.cacheHitTries queueId now f.config.maxTries f app cas) := by
  unfold CacheFilter.handleCacheHit
  cases added : addHierarchyToMetrics app.metricHierarchy f.state.reqData.metrics with
  | none => rfl
  | some metrics => rw [addHierarchyToMetrics_eq added]; rfl

/-- The application that the filter forms from a response. -/
def rebuilt (response : AuthorizationStatus) : Option Application :=
  match CacheFilter.authResponseIds response with
  | .error _ => none
  | .ok (appKeys, appId, serviceId) =>
    CacheFilter.authResponseApplication response appKeys appId serviceId

theorem rebuilt_eq {response : AuthorizationStatus} {appKeys : ListAppKeys} {appId : AppId} {serviceId : ServiceId}
    (ids : CacheFilter.authResponseIds response = .ok (appKeys, appId, serviceId)) :
    rebuilt response = CacheFilter.authResponseApplication response appKeys appId serviceId := by
  simp only [rebuilt, ids]

theorem rebuilt_some {response : AuthorizationStatus} {app : Application} (formed : rebuilt response = some app) :
    ∃ appKeys appId serviceId, CacheFilter.authResponseIds response = .ok (appKeys, appId, serviceId) ∧
      CacheFilter.authResponseApplication response appKeys appId serviceId = some app := by
  cases ids : CacheFilter.authResponseIds response with
  | error e => simp only [rebuilt, ids, reduceCtorEq] at formed
  | ok triple => exact ⟨_, _, _, rfl, (rebuilt_eq ids).symm.trans formed⟩

/-- Calls that neither send a request nor take a message. -/
def Inward : HostCall → Prop
  | .dispatchHttpCall _ => False
  | .dequeueSharedQueue _ => False
  | _ => True

theorem inward_sideCall {c : HostCall} (side : SideCall c) : Inward c := by
  cases side <;> trivial

theorem inward_filingCall {c : HostCall} (filing : FilingCall c) : Inward c := by
  cases filing with
  | side side => exact inward_sideCall side
  | application => trivial

theorem inward_checkCall {c : HostCall} (check : CheckCall c) : Inward c := by
  cases check with
  | filing filing => exact inward_filingCall filing
  | checked => trivial

/-- The calls of the cache hit flow. -/
inductive HitCall : HostCall → Prop
  | check {c : HostCall} (check : CheckCall c) : HitCall c
  | count (stat : Stat) : HitCall (.incrementMetric stat 1)
  | resolve (name : Str) : HitCall (.resolveSharedQueue name)
  | time : HitCall .getCurrentTime
  | report (queueId : Nat) (m : Message) : HitCall (.enqueueSharedQueue queueId (.message m))
  | limit (body : Option Str) : HitCall (.sendHttpResponse 429 body)
  | resume : HitCall .resumeHttpRequest

theorem only_onAuthorizedTry (f : CacheFilter) (queueId : Nat) (now : Duration) (cas : Nat)
    (info : RateLimitInfo) : (f.onAuthorizedTry queueId now cas info).Only HitCall := by
  have stat : (onlyIf (cas = 0) (incrementStat .cachedApps)).Only HitCall :=
    only_onlyIf ⟨.count _, fun _ => trivial⟩
  have report : ((f.withRateLimitInfo info).reportToSingleton queueId now).Only HitCall :=
    only_reportToSingleton .report _ queueId now
  exact Prog.only_bind stat fun _ => Prog.only_bind report fun _ => ⟨.resume, fun _ => trivial⟩

theorem only_cacheHitTries (queueId : Nat) (now : Duration) (tries : Nat) (f : CacheFilter)
    (app : Application) (cas : Nat) :
    (CacheFilter.cacheHitTries queueId now tries f app cas).Only HitCall := by
  induction tries generalizing app cas with
  | zero => exact ⟨.resume, fun _ => trivial⟩
  | succ tries ih =>
    refine Prog.only_bind ((only_limitCheckAndUpdate f.state.reqData app cas now).mono fun _ => .check) ?_
    intro result
    match result with
    | .ok (.authorized info) => exact only_onAuthorizedTry f queueId now cas info
    | .ok (.rateLimited info) => exact ⟨.limit _, fun _ => trivial⟩
    | .error .durationOverflow => trivial
    | .error (.cacheUpdateFail _) =>
      refine Prog.only_bind ((only_getApplicationFromCache _).mono fun _ side => .check (.filing (.side side))) ?_
      intro fetched
      cases fetched with
      | error e => trivial
      | ok fetched => exact ih fetched.1 fetched.2

theorem only_handleCacheHit (f : CacheFilter) (app : Application) (cas : Nat) :
    (f.handleCacheHit app cas).Only HitCall := by
  rw [handleCacheHit_eq]
  refine ⟨.count _, fun _ => ⟨.resolve _, fun queue => ?_⟩⟩
  cases queue with
  | none => trivial
  | some queueId =>
    refine ⟨.time, fun reading => ?_⟩
    cases reading with
    | none => trivial
    | some now =>
      dsimp only
      cases addHierarchyToMetrics app.metricHierarchy f.state.reqData.metrics with
      | none => trivial
      | some metrics => exact only_cacheHitTries queueId now f.config.maxTries f app cas

/-- The cache hit flow sends no request and takes no message. -/
theorem inward_hitCall {c : HostCall} (hit : HitCall c) : Inward c := by
  cases hit with
  | check check => exact inward_checkCall check
  | count | resolve | time | report | limit | resume => trivial

/-! One request for one application, and a host on which the clock runs. -/

def cachedWith (localState : HashMap UsageReport) : Application where
  appId := .appId ['a'] none
  serviceId := ['s']
  localState := localState
  metricHierarchy := ∅
  appKeys := some []

def oneHit : ThreescaleData where
  appId := .appId ['a'] none
  serviceId := ['s']
  serviceToken := ['t']
  metrics := (∅ : Metrics).insert "hits".toList 1
  upstream :=
    { name := ['c'], url := ⟨"https".toList, ['h'], ['/'], none⟩, timeout := .fromMillis 1000 }

/-- A context that may try `maxTries` times. -/
def hitContext (maxTries : Nat) : CacheFilter where
  contextId := 1
  rootId := 0
  config := { maxTries := maxTries }
  state :=
    { updateCacheFromSingleton := false
      reqData := oneHit
      cacheKey := ⟨['s'], .appId ['a'] none⟩
      rateLimitInfo := {} }

def quietHost : Host where
  shared := .empty
  queues := fun _ => []
  waiting := fun _ _ => none
  metrics := fun _ => 0
  queueIds := fun _ => some 7
  clock := some (.fromSecs 1000000)
  dispatch := .ok 1

def hitHeaders : Str → Option Str := fun name =>
  List.lookup name
    [("x-3scale-service-token".toList, ['t']), ("x-3scale-service-id".toList, ['s']),
      ("x-3scale-usages".toList, "\x7b\"hits\":1\x7d".toList),
      ("x-3scale-cluster-name".toList, ['c']), ("x-3scale-upstream-url".toList, "https://h/".toList),
      ("x-3scale-app-id".toList, ['a'])]

def hitLib : ThirdParty where
  buildApiCall := fun _ => some
    { method := "GET".toList, uri := "/transactions/authorize.xml".toList, headers := [], body := none }
  parseUrl := fun url =>
    if url = "https://h/".toList then some ⟨"https".toList, ['h'], ['/'], none⟩ else none
  hasAuthority := fun _ => true
  parseUsages := fun usages =>
    if usages = "\x7b\"hits\":1\x7d".toList then some oneHit.metrics else none

def hitFilter (contextId : Nat) : CacheFilter :=
  { id := contextId, config := {} : CacheFilterRoot }.createHttpContext contextId

def hitKey : Str := "s_a".toList

def cachedHost (app : Application) : Host :=
  { quietHost with shared := SharedData.empty.put app.cacheKey.asString (some (.application app)) }

/-- Where the application is cached, the request goes on. -/
example : ∃ t f h, ((hitFilter 1).onHttpRequestHeaders hitLib 3 hitHeaders).run Host.exec
    (cachedHost (cachedWith ∅)) = ⟨t, .done (f, .proceed), h⟩ :=
  ⟨_, _, _, rfl⟩

/-- The calls by which the filter handles a response, up to the freeing of
the lock. -/
inductive AnswerCall (key : CacheKey) : HostCall → Prop
  | hit {c : HostCall} (hit : HitCall c) : AnswerCall key c
  | record (userKey : UserKey) (id : AppId) (by_ : key.appId = .userKey userKey) :
      AnswerCall key (.setSharedData userKey (some (.appId id)) none)
  | giveUp {c : HostCall} (failure : FailureCall c) : AnswerCall key c
  | refuse (body : Option Str) : AnswerCall key (.sendHttpResponse 403 body)

theorem only_recordAppId (f : CacheFilter) (appId : AppId) :
    (f.recordAppId appId).Only (AnswerCall f.state.cacheKey) := by
  unfold CacheFilter.recordAppId
  cases by_ : f.state.cacheKey.appId with
  | appId => trivial
  | userKey userKey =>
    refine ⟨.record userKey appId by_, fun reply => ?_⟩
    cases reply <;> trivial

theorem only_filterHandleAuthResponse (f : CacheFilter) (response : AuthorizationStatus) :
    (f.handleAuthResponse response).Only (AnswerCall f.state.cacheKey) := by
  unfold CacheFilter.handleAuthResponse
  cases CacheFilter.authResponseIds response with
  | error e => trivial
  | ok carried =>
    refine Prog.only_bind (only_recordAppId f carried.2.1) fun recorded => ?_
    match recorded with
    | (_, .error e) => trivial
    | (f', .ok ()) =>
      dsimp only
      cases CacheFilter.authResponseApplication response carried.1 carried.2.1 carried.2.2 with
      | none => trivial
      | some app =>
        refine Prog.only_bind ((only_handleCacheHit _ app 0).mono fun _ => .hit) fun result => ?_
        match result with
        | (_, .ok ()) | (_, .error e) => trivial

theorem only_onAuthorization (f : CacheFilter) (authorization : Authorization) :
    (f.onAuthorization authorization).Only (AnswerCall f.state.cacheKey) := by
  have fails : ∀ (f' : CacheFilter), f'.requestProcessFailure.Only (AnswerCall f.state.cacheKey) :=
    fun f' => (only_requestProcessFailure f').mono fun _ => .giveUp
  cases authorization with
  | error code => exact Prog.only_bind (fails f) fun _ => trivial
  | status response =>
    unfold CacheFilter.onAuthorization
    dsimp only
    split
    · refine Prog.only_bind (only_filterHandleAuthResponse f response) fun result => ?_
      match result with
      | (_, .ok ()) => trivial
      | (f', .error e) => exact Prog.only_bind (fails f') fun _ => trivial
    · refine ⟨.hit (.count _), fun _ => ?_⟩
      dsimp only
      cases response.reason with
      | none => trivial
      | some reason => exact ⟨.refuse _, fun _ => trivial⟩

theorem only_onCallResult (f : CacheFilter) (status : Str) (body : Option ResponseBody) :
    (f.onCallResult status body).Only (AnswerCall f.state.cacheKey) := by
  have fails : f.requestProcessFailure.Only (AnswerCall f.state.cacheKey) :=
    (only_requestProcessFailure f).mono fun _ => .giveUp
  unfold CacheFilter.onCallResult
  split
  · match body with
    | none | some .unparsable => exact Prog.only_bind fails fun _ => trivial
    | some .notUtf8 => trivial
    | some (.parsed authorization) => exact only_onAuthorization f authorization
  · refine ⟨.hit (.count _), fun _ => ?_⟩
    show Prog.Only _ (f.requestProcessFailure >>= _)
    exact Prog.only_bind fails fun _ => trivial

/-- A response with one report, of `used` hits out of five. -/
def fiveHits (authorized : Bool) (used : UInt64) : AuthorizationStatus where
  isAuthorized := authorized
  reason := if authorized then none else some "limits exceeded".toList
  usageReports := some
    [{ metric := "hits".toList, period := .minute, periodStart := 999960, periodEnd := 1000020,
       maxValue := 5, currentValue := used }]
  hierarchy := none
  appKeys := some { serviceId := some ['s'], appId := some ['a'], keys := [] }

def callResponse (status : String) (response : AuthorizationStatus) : CallResponse where
  status := some status.toList
  body := some (.parsed (.status response))

/-- An answer that lets the request pass files the application. -/
example : ∃ t f h, ((hitContext 1).onHttpCallResponse (callResponse "200" (fiveHits true 1))).run Host.exec
    quietHost = ⟨t, .done f, h⟩ ∧ (h.shared.value hitKey).isSome :=
  ⟨_, _, _, rfl, by decide⟩

end ThreescaleCache
