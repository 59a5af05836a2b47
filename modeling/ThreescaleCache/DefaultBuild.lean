import ThreescaleCache.FilterTasks
import ThreescaleCache.Interaction.Erasure
import ThreescaleCache.UniqueCalloutDummy

namespace ThreescaleCache
open Interaction

/-! The default build does what the build with the callout-lock does, as long
as no request meets a lock that another one holds. -/

def lockPrefix : Str := "CL_".toList

/-- The key is not that of a lock. -/
def Ordinary (key : Str) : Prop := ¬lockPrefix <+: key

instance (key : Str) : Decidable (Ordinary key) := inferInstanceAs (Decidable (¬_))

/-- The service has no application whose key is also that of a lock. -/
def OrdinaryService (serviceId : ServiceId) : Prop := ∀ appId, Ordinary (CacheKey.asString ⟨serviceId, appId⟩)

def Application.Ordinary (app : Application) : Prop := ThreescaleCache.Ordinary app.cacheKey.asString

theorem lockPrefix_calloutLockKey (cacheKey : CacheKey) : lockPrefix <+: calloutLockKey cacheKey :=
  List.prefix_append _ _

/-- The calls that only the build with the lock makes. -/
def LockTraffic : HostCall → Prop
  | .getSharedData key => lockPrefix <+: key
  | .setSharedData key _ _ => lockPrefix <+: key
  | .resolveSharedQueue name => name ≠ queueName
  | .insertWaitingContext _ => True
  | .enqueueSharedQueue _ (.waiterAction _) => True
  | _ => False

instance : DecidablePred LockTraffic := fun c => by
  unfold LockTraffic
  split <;> infer_instance

/-- Calls that touch no lock and leave only such applications. -/
def KeepsOff : HostCall → Prop
  | .getSharedData key => Ordinary key
  | .setSharedData key value _ => Ordinary key ∧ ∀ app, value = some (.application app) → app.Ordinary
  | .resolveSharedQueue name => name = queueName
  | .insertWaitingContext _ => False
  | .enqueueSharedQueue _ (.waiterAction _) => False
  | _ => True

/-- A lock is free, or held without waiters. -/
def Lone : Except Status (Option SharedValue × Option Nat) → Prop
  | .ok (none, _) => True
  | .ok (some (.calloutLock value), _) => value.waiters = []
  | _ => False

/-- Whoever writes a lock gets it, or frees it, and nobody is made to wait. -/
def Uncontended : HostEvent → Prop
  | ⟨.getSharedData key, reply⟩ => lockPrefix <+: key → Lone reply
  | ⟨.setSharedData key value _, reply⟩ =>
    lockPrefix <+: key → Lone (.ok (value, none)) ∧ reply = .ok ()
  | ⟨.resolveSharedQueue name, reply⟩ => name ≠ queueName → reply.isSome
  | ⟨.insertWaitingContext _, _⟩ => False
  | ⟨.enqueueSharedQueue _ (.waiterAction _), _⟩ => False
  | _ => True

instance (reply : Except Status (Option SharedValue × Option Nat)) : Decidable (Lone reply) := by
  unfold Lone
  split <;> infer_instance

instance (e : HostEvent) : Decidable (Uncontended e) := by
  unfold Uncontended
  split <;> infer_instance

/-- What is read under other keys than those of locks is ordinary. -/
def ReadsOrdinary : HostEvent → Prop
  | ⟨.getSharedData key, .ok (some (.application app), _)⟩ => Ordinary key → app.Ordinary
  | _ => True

def Undisturbed (e : HostEvent) : Prop := Uncontended e ∧ ReadsOrdinary e

/-- The second program is the first without the traffic of the locks. -/
abbrev Alike {α β : Type} (Q : α → β → Prop) (p : HostProg α) (p' : HostProg β) : Prop :=
  p.Erases LockTraffic KeepsOff Undisturbed Q p'

/-- Both return the same, of which `P` holds. -/
abbrev Both {α : Type} (P : α → Prop) (a b : α) : Prop := a = b ∧ P a

theorem alike_self {α : Type} {p : HostProg α} (only : p.Only KeepsOff) : Alike (Both fun _ => True) p p :=
  (Prog.erases_self only).mono fun _ _ same => ⟨same, trivial⟩

/-! The callout-lock -/

/-- A context that meets no other gets the lock. -/
theorem alike_setCalloutLockLoop (f : CacheFilter) {key : Str} (isLock : lockPrefix <+: key)
    (waiter : CalloutWaiter) (rounds : Nat) :
    Alike (fun r r' => r = .ok .lockAcquired ∧ r' = .ok .lockAcquired)
      (setCalloutLockLoop f key waiter rounds none) (UniqueCalloutDummy.setCalloutLock f) := by
  cases rounds with
  | zero => trivial
  | succ rounds =>
    refine Prog.erases_hidden isLock fun reading undisturbed => ?_
    have lone := undisturbed.1 isLock
    match reading, lone with
    | .ok (none, none), _ =>
      refine Prog.erases_hidden isLock fun reply undisturbed => ?_
      obtain ⟨_, rfl⟩ := undisturbed.1 isLock
      exact Prog.erases_done ⟨rfl, rfl⟩
    | .ok (some (.calloutLock value), none), _ =>
      refine Prog.erases_hidden isLock fun reply undisturbed => ?_
      obtain ⟨_, rfl⟩ := undisturbed.1 isLock
      exact Prog.erases_done ⟨rfl, rfl⟩
    | .ok (none, some cas), _ =>
      refine Prog.erases_hidden isLock fun reply undisturbed => ?_
      obtain ⟨_, rfl⟩ := undisturbed.1 isLock
      exact Prog.erases_done ⟨rfl, rfl⟩
    | .ok (some (.calloutLock stored), some cas), _ =>
      -- The lock is held: the write of the waiter is what the runs leave out.
      refine Prog.erases_hidden isLock fun reply undisturbed => ?_
      have alone : stored.waiters ++ [waiter] = [] := (undisturbed.1 isLock).1
      exact absurd alone (List.append_ne_nil_of_right_ne_nil _ (List.cons_ne_nil _ _))

theorem alike_setCalloutLock (f : CacheFilter) (rounds : Nat) :
    Alike (fun r r' => r = .ok .lockAcquired ∧ r' = .ok .lockAcquired)
      ((uniqueCallout rounds).setCalloutLock f) (uniqueCalloutDummy.setCalloutLock f) := by
  refine Prog.erases_hidden (threadQueueName_ne f.rootId) fun queue undisturbed => ?_
  have registered := undisturbed.1 (threadQueueName_ne f.rootId)
  cases queue with
  | none => cases registered
  | some queueId => exact alike_setCalloutLockLoop f (lockPrefix_calloutLockKey _) _ rounds

theorem alike_freeCalloutLock (rounds : Nat) (cacheKey : CacheKey) (action : WaiterAction) :
    Alike (fun _ _ => True) ((uniqueCallout rounds).freeCalloutLockAndNotifyWaiters cacheKey action)
      (uniqueCalloutDummy.freeCalloutLockAndNotifyWaiters cacheKey action) := by
  refine Prog.erases_hidden (lockPrefix_calloutLockKey cacheKey) fun reading undisturbed => ?_
  have lone := undisturbed.1 (lockPrefix_calloutLockKey cacheKey)
  match reading, lone with
  | .ok (none, _), _ => exact Prog.erases_done trivial
  | .ok (some (.calloutLock ⟨_, []⟩), _), _ =>
    refine Prog.erases_hidden (lockPrefix_calloutLockKey cacheKey) fun reply undisturbed => ?_
    obtain ⟨_, rfl⟩ := undisturbed.1 (lockPrefix_calloutLockKey cacheKey)
    exact Prog.erases_done trivial

/-! The cached applications -/

section
variable {app : Application} {cas : Nat}

theorem keepsOff_counterCall {c : HostCall} (counter : CounterCall c) : KeepsOff c := by
  cases counter with
  | read => exact (by decide : Ordinary sharedMemoryCounterKey)
  | write => exact ⟨by decide, by rintro _ ⟨⟩⟩

theorem only_keepsOff_setApplication (ordinary : app.Ordinary) (cas : Nat) :
    (setApplicationToCache app.cacheKey.asString app cas).Only KeepsOff := by
  have size : (getCachePairSize app.cacheKey.asString).Only KeepsOff := by
    refine ⟨ordinary, fun reply => ?_⟩
    match reply with
    | .error _ | .ok (some _, _) | .ok (none, _) => trivial
  refine Prog.only_bind size fun size => ?_
  cases size with
  | error e => trivial
  | ok previous =>
    refine ⟨⟨ordinary, by rintro _ ⟨⟩; exact ordinary⟩, fun reply => ?_⟩
    cases reply with
    | error e => trivial
    | ok =>
      show Prog.Only KeepsOff (retryUpdateSharedMemorySize _ 3 >>= _)
      exact Prog.only_bind ((only_retryUpdate_counter _ 3).mono fun _ => keepsOff_counterCall) fun _ => trivial

theorem only_keepsOff_limitCheck (ordinary : app.Ordinary) (data : ThreescaleData) (cas : Nat) (now : Duration) :
    (limitCheckAndUpdateApplication data app cas now).Only KeepsOff := by
  unfold limitCheckAndUpdateApplication
  cases verdict : limitCheck now data.metrics.entries app {} with
  | trap => trivial
  | overflow | limited => exact ⟨trivial, fun _ => trivial⟩
  | pass app' info =>
    have left : app'.Ordinary := by
      rw [Application.Ordinary, limitCheck_pass_cacheKey verdict]
      exact ordinary
    refine Prog.only_bind (only_keepsOff_setApplication left cas) fun set => ?_
    cases set with
    | error e => exact ⟨trivial, fun _ => trivial⟩
    | ok => exact ⟨trivial, fun _ => trivial⟩

theorem alike_getApplicationFromCache {key : CacheKey} (ordinary : Ordinary key.asString) :
    Alike (Both fun r => ∀ app cas, r = .ok (app, cas) → app.Ordinary) (getApplicationFromCache key)
      (getApplicationFromCache key) := by
  refine Prog.erases_call ordinary fun reading undisturbed => ?_
  match reading, undisturbed with
  | .ok (some (.application app), some cas), undisturbed =>
    refine Prog.erases_done ⟨rfl, fun _ _ is => ?_⟩
    cases is
    exact undisturbed.2 ordinary
  | .ok (some (.appId _), some _), _ | .ok (some (.calloutLock _), some _), _
  | .ok (some (.memoryCounter _), some _), _ | .ok (some _, none), _ | .ok (none, _), _ | .error _, _ =>
    exact Prog.erases_done ⟨rfl, by rintro _ _ ⟨⟩⟩

theorem only_keepsOff_getAppId {userKey : UserKey} (ordinary : Ordinary userKey) :
    (getAppIdFromCache userKey).Only KeepsOff := by
  rw [getAppIdFromCache_eq]
  exact ⟨ordinary, fun _ => trivial⟩

end

/-! The cache hit -/

/-- The service and the user_key of the context have ordinary keys. -/
structure CacheFilter.Ordinary (f : CacheFilter) : Prop where
  service : OrdinaryService f.state.cacheKey.serviceId
  user : ∀ userKey, f.state.cacheKey.appId = .userKey userKey → ThreescaleCache.Ordinary userKey

/-- The context that both leave is ordinary. -/
abbrev BothLeave {α : Type} (r r' : CacheFilter × α) : Prop := Both (fun r => r.1.Ordinary) r r'

section
variable {f : CacheFilter} {app : Application} {cas : Nat}

theorem CacheFilter.Ordinary.key (ordinary : f.Ordinary) :
    ThreescaleCache.Ordinary f.state.cacheKey.asString :=
  ordinary.service f.state.cacheKey.appId

theorem CacheFilter.Ordinary.withRateLimitInfo (ordinary : f.Ordinary) (info : RateLimitInfo) :
    (f.withRateLimitInfo info).Ordinary :=
  ⟨ordinary.service, ordinary.user⟩

theorem alike_inRequestFailure (ordinary : f.Ordinary) :
    Alike BothLeave f.inRequestFailure f.inRequestFailure := by
  unfold CacheFilter.inRequestFailure
  dsimp only
  split
  · exact Prog.erases_call trivial fun _ _ => Prog.erases_done ⟨rfl, ordinary.withRateLimitInfo {}⟩
  · exact Prog.erases_done ⟨rfl, ordinary.withRateLimitInfo {}⟩

theorem alike_requestProcessFailure (ordinary : f.Ordinary) :
    Alike (Both CacheFilter.Ordinary) f.requestProcessFailure f.requestProcessFailure := by
  refine Prog.erases_bind (alike_self (only_onlyIf ⟨trivial, fun _ => trivial⟩)) fun _ _ _ => ?_
  exact Prog.erases_call trivial fun _ _ => Prog.erases_done ⟨rfl, ordinary.withRateLimitInfo {}⟩

theorem alike_onAuthorizedTry (ordinary : f.Ordinary) (queueId cas : Nat) (now : Duration)
    (info : RateLimitInfo) :
    Alike BothLeave (f.onAuthorizedTry queueId now cas info) (f.onAuthorizedTry queueId now cas info) := by
  refine Prog.erases_bind (alike_self (only_onlyIf ⟨trivial, fun _ => trivial⟩)) fun _ _ _ => ?_
  refine Prog.erases_bind (alike_self (only_reportToSingleton (fun _ _ => trivial) _ _ _)) fun _ _ _ => ?_
  exact Prog.erases_call trivial fun _ _ => Prog.erases_done ⟨rfl, ordinary.withRateLimitInfo info⟩

theorem alike_cacheHitTries (ordinary : f.Ordinary) (filed : app.Ordinary) (queueId tries : Nat)
    (now : Duration) :
    Alike BothLeave (CacheFilter.cacheHitTries queueId now tries f app cas)
      (CacheFilter.cacheHitTries queueId now tries f app cas) := by
  induction tries generalizing app cas with
  | zero => exact Prog.erases_call trivial fun _ _ => Prog.erases_done ⟨rfl, ordinary.service, ordinary.user⟩
  | succ tries ih =>
    refine Prog.erases_bind (alike_self (only_keepsOff_limitCheck filed _ cas now)) fun r r' same => ?_
    obtain ⟨rfl, _⟩ := same
    match r with
    | .ok (.authorized info) => exact alike_onAuthorizedTry ordinary queueId cas now info
    | .ok (.rateLimited info) =>
      exact Prog.erases_call trivial fun _ _ => Prog.erases_done ⟨rfl, ordinary.withRateLimitInfo info⟩
    | .error .durationOverflow => exact Prog.erases_done ⟨rfl, ordinary⟩
    | .error (.cacheUpdateFail _) =>
      refine Prog.erases_bind (alike_getApplicationFromCache ordinary.key) fun again again' same => ?_
      obtain ⟨rfl, known⟩ := same
      match again, known with
      | .ok (app, cas), known => exact ih (known app cas rfl)
      | .error e, _ => exact Prog.erases_done ⟨rfl, ordinary⟩

theorem alike_handleCacheHit (ordinary : f.Ordinary) (filed : app.Ordinary) :
    Alike BothLeave (f.handleCacheHit app cas) (f.handleCacheHit app cas) := by
  rw [handleCacheHit_eq]
  refine Prog.erases_call trivial fun _ _ => Prog.erases_call rfl fun queue _ => ?_
  cases queue with
  | none => exact Prog.erases_done ⟨rfl, ordinary⟩
  | some queueId =>
    refine Prog.erases_call trivial fun reading _ => ?_
    cases reading with
    | none => exact Prog.erases_done ⟨rfl, ordinary⟩
    | some now =>
      cases addHierarchyToMetrics app.metricHierarchy f.state.reqData.metrics with
      | none => exact (rfl : (.trap : HostProg (CacheFilter × Except CacheHitError Unit)) = .trap)
      | some metrics =>
        exact alike_cacheHitTries ordinary filed queueId _ now

theorem alike_cacheHitOrFail (ordinary : f.Ordinary) (filed : app.Ordinary) :
    Alike BothLeave (f.cacheHitOrFail app cas) (f.cacheHitOrFail app cas) := by
  refine Prog.erases_bind (alike_handleCacheHit ordinary filed) fun r r' same => ?_
  obtain ⟨rfl, left⟩ := same
  match r, left with
  | (f, .ok ()), left => exact Prog.erases_done ⟨rfl, left⟩
  | (f, .error e), left => exact alike_inRequestFailure left

/-! The request headers -/

theorem alike_doAuthCall (ordinary : f.Ordinary) (lib : ThirdParty) :
    Alike BothLeave (f.doAuthCall lib) (f.doAuthCall lib) := by
  unfold CacheFilter.doAuthCall
  cases lib.buildApiCall (CacheFilter.authorizeCall f.state.reqData) with
  | none => exact alike_inRequestFailure ordinary
  | some request =>
    refine Prog.erases_call trivial fun reply _ => ?_
    cases reply with
    | ok token => exact Prog.erases_done ⟨rfl, ordinary⟩
    | error e => exact alike_inRequestFailure ordinary

theorem alike_lookUp {ε α : Type} {lib : ThirdParty} {rounds : Nat} {P : α → Prop}
    {read : HostProg (Except ε α)} {found found' : α → HostProg (CacheFilter × Action)} (ordinary : f.Ordinary)
    (reads : Alike (Both fun r => ∀ a, r = .ok a → P a) read read)
    (hits : ∀ a, P a → Alike BothLeave (found a) (found' a)) :
    Alike BothLeave (f.lookUpBy (uniqueCallout rounds) lib read found)
      (f.lookUpBy uniqueCalloutDummy lib read found') := by
  refine Prog.erases_bind reads fun first first' same => ?_
  obtain ⟨rfl, known⟩ := same
  cases first with
  | ok a => exact hits a (known a rfl)
  | error e =>
    have misses : (incrementStat .cacheMisses).Only KeepsOff := ⟨trivial, fun _ => trivial⟩
    refine Prog.erases_bind (alike_self misses) fun _ _ _ => ?_
    refine Prog.erases_bind (alike_setCalloutLock f rounds) fun status status' acquired => ?_
    obtain ⟨rfl, rfl⟩ := acquired
    exact alike_doAuthCall ordinary lib

theorem alike_lookupApplication (ordinary : f.Ordinary) (lib : ThirdParty) (rounds : Nat) :
    Alike BothLeave (f.lookupApplicationBy (uniqueCallout rounds) lib)
      (f.lookupApplicationBy uniqueCalloutDummy lib) := by
  refine alike_lookUp (P := fun found => found.1.Ordinary) ordinary ?_ fun found filed =>
    alike_cacheHitOrFail ordinary filed
  exact (alike_getApplicationFromCache ordinary.key).mono fun _ _ same =>
    ⟨same.1, fun found is => same.2 found.1 found.2 is⟩

theorem alike_onHttpRequestHeaders (ordinary : f.Ordinary) {lib : ThirdParty} {headers : Str → Option Str}
    (requests : ∀ data, CacheFilter.getRequestData lib headers = .ok data →
      OrdinaryService data.serviceId ∧ ∀ userKey, data.appId = .userKey userKey → Ordinary userKey)
    (rounds : Nat) :
    Alike BothLeave (f.onHttpRequestHeadersBy (uniqueCallout rounds) lib headers)
      (f.onHttpRequestHeadersBy uniqueCalloutDummy lib headers) := by
  unfold CacheFilter.onHttpRequestHeadersBy
  cases requested : CacheFilter.getRequestData lib headers with
  | error e =>
    exact Prog.erases_call trivial fun _ _ => Prog.erases_call trivial fun _ _ =>
      Prog.erases_done ⟨rfl, ordinary⟩
  | ok data =>
    obtain ⟨service, user⟩ := requests data requested
    dsimp only
    cases named : data.appId with
    | userKey userKey =>
      refine alike_lookUp (P := fun _ => True) ⟨service, fun _ is => user _ (named.trans is)⟩ ?_ fun appId _ =>
        alike_lookupApplication ⟨service, by rintro _ ⟨⟩⟩ lib rounds
      exact (alike_self (only_keepsOff_getAppId (user userKey named))).mono fun _ _ same =>
        ⟨same.1, fun _ _ => trivial⟩
    | appId id key => exact alike_lookupApplication ⟨service, by rintro _ ⟨⟩⟩ lib rounds

theorem only_keepsOff_addRateLimitHeader (name : String) (value : Option UInt64) :
    (CacheFilter.addRateLimitHeader name value).Only KeepsOff := by
  cases value with
  | none => trivial
  | some value => exact ⟨trivial, fun _ => trivial⟩

theorem only_keepsOff_onHttpResponseHeaders (f : CacheFilter) : f.onHttpResponseHeaders.Only KeepsOff := by
  refine Prog.only_bind (only_keepsOff_addRateLimitHeader _ _) fun _ => ?_
  refine Prog.only_bind (only_keepsOff_addRateLimitHeader _ _) fun _ => ?_
  exact Prog.only_bind (only_keepsOff_addRateLimitHeader _ _) fun _ => trivial

/-! The authorize response -/

/-- The service that the response names has ordinary keys. -/
def AuthorizationStatus.Ordinary (a : AuthorizationStatus) : Prop :=
  ∀ appKeys serviceId, a.appKeys = some appKeys → appKeys.serviceId = some serviceId → OrdinaryService serviceId

theorem authResponseIds_ordinary {a : AuthorizationStatus} {appKeys : ListAppKeys} {appId : AppId}
    {serviceId : ServiceId} (ordinary : a.Ordinary)
    (ids : CacheFilter.authResponseIds a = .ok (appKeys, appId, serviceId)) : OrdinaryService serviceId := by
  unfold CacheFilter.authResponseIds at ids
  split at ids
  · cases ids
  · rename_i keys listed
    split at ids
    · cases ids
    · cases ids
    · rename_i named
      cases ids
      exact ordinary _ _ listed named

theorem alike_recordAppId (ordinary : f.Ordinary) (appId : AppId) :
    Alike BothLeave (f.recordAppId appId) (f.recordAppId appId) := by
  unfold CacheFilter.recordAppId
  split
  · rename_i userKey named
    refine Prog.erases_call ⟨ordinary.user userKey named, by rintro _ ⟨⟩⟩ fun reply _ => ?_
    cases reply with
    | ok => exact Prog.erases_done ⟨rfl, ordinary.service, ordinary.user⟩
    | error e => exact Prog.erases_done ⟨rfl, ordinary.service, ordinary.user⟩
  · exact Prog.erases_done ⟨rfl, ordinary⟩

theorem alike_handleAuthResponse (ordinary : f.Ordinary) {a : AuthorizationStatus} (serves : a.Ordinary) :
    Alike BothLeave (f.handleAuthResponse a) (f.handleAuthResponse a) := by
  unfold CacheFilter.handleAuthResponse
  cases ids : CacheFilter.authResponseIds a with
  | error e => exact Prog.erases_done ⟨rfl, ordinary⟩
  | ok triple =>
    obtain ⟨appKeys, appId, serviceId⟩ := triple
    have service := authResponseIds_ordinary serves ids
    refine Prog.erases_bind (alike_recordAppId ordinary appId) fun recorded recorded' same => ?_
    obtain ⟨rfl, left⟩ := same
    match recorded, left with
    | (f, .error e), left => exact Prog.erases_done ⟨rfl, left⟩
    | (f, .ok ()), left =>
      dsimp only
      cases formed : CacheFilter.authResponseApplication a appKeys appId serviceId with
      | none => exact Prog.erases_done ⟨rfl, service, by rintro _ ⟨⟩⟩
      | some app =>
        obtain ⟨state, run, is⟩ := Option.bind_eq_some_iff.mp formed
        cases is
        refine Prog.erases_bind (alike_handleCacheHit ⟨service, by rintro _ ⟨⟩⟩ (service (.appId appId none)))
          fun r r' same => ?_
        obtain ⟨rfl, left⟩ := same
        match r, left with
        | (f, .ok ()), left => exact Prog.erases_done ⟨rfl, left⟩
        | (f, .error e), left => exact Prog.erases_done ⟨rfl, left⟩

theorem alike_failed {β : Type} (ordinary : f.Ordinary) (b : β) :
    Alike BothLeave (f.requestProcessFailure >>= fun f => (pure (f, b) : HostProg (CacheFilter × β)))
      (f.requestProcessFailure >>= fun f => (pure (f, b) : HostProg (CacheFilter × β))) := by
  refine Prog.erases_bind (alike_requestProcessFailure ordinary) fun f f' same => ?_
  obtain ⟨rfl, left⟩ := same
  exact Prog.erases_done ⟨rfl, left⟩

theorem alike_onAuthorization (ordinary : f.Ordinary) {authorization : Authorization}
    (serves : ∀ a, authorization = .status a → a.Ordinary) :
    Alike BothLeave (f.onAuthorization authorization) (f.onAuthorization authorization) := by
  unfold CacheFilter.onAuthorization
  cases authorization with
  | error e => exact alike_failed ordinary none
  | status a =>
    dsimp only
    split
    · refine Prog.erases_bind (alike_handleAuthResponse ordinary (serves a rfl)) fun r r' same => ?_
      obtain ⟨rfl, left⟩ := same
      match r, left with
      | (f, .error e), left => exact alike_failed left _
      | (f, .ok ()), left => exact Prog.erases_done ⟨rfl, left⟩
    · refine Prog.erases_call trivial fun _ _ => ?_
      cases a.reason with
      | none => exact (rfl : (.trap : HostProg (CacheFilter × Option WaiterAction)) = .trap)
      | some reason => exact Prog.erases_call trivial fun _ _ => Prog.erases_done ⟨rfl, ordinary⟩

/-- The response, if it can be parsed, names a service with ordinary keys. -/
def CallResponse.Ordinary (response : CallResponse) : Prop :=
  ∀ a, response.body = some (.parsed (.status a)) → a.Ordinary

theorem alike_onCallResult (ordinary : f.Ordinary) {response : CallResponse} (serves : response.Ordinary)
    (status : Str) :
    Alike BothLeave (f.onCallResult status response.body) (f.onCallResult status response.body) := by
  unfold CacheFilter.onCallResult
  split
  · cases carried : response.body with
    | none => exact alike_failed ordinary _
    | some body =>
      cases body with
      | notUtf8 => exact (rfl : (.trap : HostProg (CacheFilter × Option WaiterAction)) = .trap)
      | unparsable => exact alike_failed ordinary _
      | parsed authorization =>
        refine alike_onAuthorization ordinary fun a is => serves a ?_
        rw [carried, is]
  · exact Prog.erases_call trivial fun _ _ => alike_failed ordinary _

theorem alike_onHttpCallResponse (ordinary : f.Ordinary) {response : CallResponse} (serves : response.Ordinary)
    (rounds : Nat) :
    Alike (Both CacheFilter.Ordinary) (f.onHttpCallResponseBy (uniqueCallout rounds) response)
      (f.onHttpCallResponseBy uniqueCalloutDummy response) := by
  unfold CacheFilter.onHttpCallResponseBy
  cases response.status with
  | none => exact (rfl : (.trap : HostProg CacheFilter) = .trap)
  | some status =>
    refine Prog.erases_bind (alike_onCallResult ordinary serves status) fun outcome outcome' same => ?_
    obtain ⟨rfl, left⟩ := same
    match outcome, left with
    | (_, none), left => exact Prog.erases_done ⟨rfl, left⟩
    | (f', some action), left =>
      refine Prog.erases_bind (alike_freeCalloutLock rounds f.state.cacheKey action) fun _ _ _ => ?_
      exact Prog.erases_done ⟨rfl, left⟩

end

/-! The host without its locks -/

namespace SharedData

/-- Without the locks. The next CAS stays as it is. -/
def unlocked (d : SharedData) : SharedData where
  entry := fun key => if lockPrefix <+: key then none else d.entry key
  nextCas := d.nextCas
  casBound := by
    intro key value cas entry
    split at entry
    · cases entry
    · exact d.casBound key value cas entry
  positive := d.positive

/-- Others have written keys that are not looked at: only the CAS has moved. -/
def Passed (d d' : SharedData) : Prop := d'.entry = d.entry ∧ d.nextCas ≤ d'.nextCas

variable {d d' : SharedData} {key : Str}

theorem ext_entry (entries : d.entry = d'.entry) (cas : d.nextCas = d'.nextCas) : d = d' := by
  cases d
  cases d'
  cases entries
  cases cas
  rfl

theorem unlocked_entry (ordinary : Ordinary key) : d.unlocked.entry key = d.entry key :=
  if_neg ordinary

theorem unlocked_get (ordinary : Ordinary key) : d.unlocked.get key = d.get key := by
  simp only [get, unlocked_entry ordinary]

theorem unlocked_put (ordinary : Ordinary key) (value : Option SharedValue) :
    (d.put key value).unlocked = d.unlocked.put key value := by
  refine ext_entry (funext fun other => ?_) rfl
  by_cases same : other = key
  · subst same
    rw [unlocked_entry ordinary, put_entry_self, put_entry_self]
    rfl
  · rw [put_entry_ne _ _ same]
    by_cases isLock : lockPrefix <+: other
    · simp only [unlocked, if_pos isLock]
    · rw [unlocked_entry isLock, unlocked_entry isLock, put_entry_ne _ _ same]

theorem unlocked_set (ordinary : Ordinary key) (value : Option SharedValue) (cas : Option Nat) :
    d.unlocked.set key value cas = ((d.set key value cas).1, (d.set key value cas).2.unlocked) := by
  unfold set
  rw [unlocked_entry ordinary]
  cases d.entry key with
  | none => rw [unlocked_put ordinary]
  | some entry =>
    obtain ⟨_, stored⟩ := entry
    dsimp only
    split
    · rw [unlocked_put ordinary]
    · rfl

/-- A write to a lock only moves the CAS. -/
theorem passed_put_lock (isLock : lockPrefix <+: key) (value : Option SharedValue) :
    d.unlocked.Passed (d.put key value).unlocked := by
  refine ⟨funext fun other => ?_, Nat.le_succ _⟩
  by_cases other_ : lockPrefix <+: other
  · simp only [unlocked, if_pos other_]
  · have different : other ≠ key := by
      rintro rfl
      exact other_ isLock
    rw [unlocked_entry other_, unlocked_entry other_, put_entry_ne _ _ different]

theorem Passed.refl (d : SharedData) : d.Passed d := ⟨rfl, Nat.le_refl _⟩

theorem Passed.unlocked (passed : d.Passed d') : d.unlocked.Passed d'.unlocked := by
  refine ⟨?_, passed.2⟩
  simp only [SharedData.unlocked, passed.1]

end SharedData

namespace Host

def unlocked (h : Host) : Host := { h with shared := h.shared.unlocked }

/-- The surroundings move the clock, let calls out succeed or fail, and write
other keys of shared data. -/
def Surrounds (h h' : Host) : Prop :=
  ∃ clock dispatch shared, h.shared.Passed shared ∧
    h' = { h with clock := clock, dispatch := dispatch, shared := shared }

theorem surrounds_passed {h : Host} {shared : SharedData} (passed : h.shared.Passed shared) :
    h.Surrounds { h with shared := shared } :=
  ⟨h.clock, h.dispatch, shared, passed, rfl⟩

theorem Surrounds.refl (h : Host) : h.Surrounds h := surrounds_passed (SharedData.Passed.refl _)

theorem Surrounds.unlocked {h h' : Host} (surrounds : h.Surrounds h') : h.unlocked.Surrounds h'.unlocked := by
  obtain ⟨clock, dispatch, shared, passed, rfl⟩ := surrounds
  exact ⟨clock, dispatch, shared.unlocked, passed.unlocked, rfl⟩

end Host

/-! Runs of both builds -/

/-- What a context is called for, in either build. -/
inductive FilterCallback where
  | requestHeaders (lib : ThirdParty) (headers : Str → Option Str)
  | responseHeaders
  | callResponse (response : CallResponse)

/-- The context is kept for its next callback. -/
def FilterCallback.program {ε : Type} (callout : CalloutModule ε) (f : CacheFilter) :
    FilterCallback → HostProg (Option CacheFilter)
  | .requestHeaders lib headers => do
    let (f, _) ← f.onHttpRequestHeadersBy callout lib headers
    pure (some f)
  | .responseHeaders => do
    let _ ← f.onHttpResponseHeaders
    pure (some f)
  | .callResponse response => do
    let f ← f.onHttpCallResponseBy callout response
    pure (some f)

/-- No service and no user_key has the key of a lock. -/
def FilterCallback.Ordinary : FilterCallback → Prop
  | .requestHeaders lib headers => ∀ data, CacheFilter.getRequestData lib headers = .ok data →
      OrdinaryService data.serviceId ∧ ∀ userKey, data.appId = .userKey userKey → ThreescaleCache.Ordinary userKey
  | .responseHeaders => True
  | .callResponse response => response.Ordinary

variable {ι : Type} [DecidableEq ι]

/-- Contexts, each with one callback after the other, beside others that keep
off the locks. -/
def builtParties {ε : Type} (ι : Type) (callout : CalloutModule ε) :
    Parties ι HostCall HostCall.Reply Host (Option CacheFilter) where
  exec := fun _ => Host.exec
  env := Host.Surrounds
  resume := fun _ outcome _ p => match outcome with
    | some f => ∃ callback : FilterCallback, callback.Ordinary ∧ p = callback.program callout f
    | none => ∃ q : HostProg Unit, q.Only KeepsOff ∧ p = q >>= fun _ => pure none

theorem alike_callback {f : CacheFilter} (ordinary : f.Ordinary) {callback : FilterCallback}
    (requests : callback.Ordinary) (rounds : Nat) :
    Alike (Both fun r => ∀ f, r = some f → f.Ordinary) (callback.program (uniqueCallout rounds) f)
      (callback.program uniqueCalloutDummy f) := by
  have leaves : ∀ f : CacheFilter, f.Ordinary →
      Both (fun r => ∀ f : CacheFilter, r = some f → f.Ordinary) (some f) (some f) := by
    refine fun f ordinary => ⟨rfl, ?_⟩
    rintro _ ⟨⟩
    exact ordinary
  cases callback with
  | requestHeaders lib headers =>
    refine Prog.erases_bind (alike_onHttpRequestHeaders ordinary requests rounds) fun r r' same => ?_
    obtain ⟨rfl, left⟩ := same
    exact Prog.erases_done (leaves r.1 left)
  | responseHeaders =>
    exact Prog.erases_bind (alike_self (only_keepsOff_onHttpResponseHeaders f)) fun _ _ _ =>
      Prog.erases_done (leaves f ordinary)
  | callResponse response =>
    refine Prog.erases_bind (alike_onHttpCallResponse ordinary requests rounds) fun f f' same => ?_
    obtain ⟨rfl, left⟩ := same
    exact Prog.erases_done (leaves f left)

/-- All applications under ordinary keys are ordinary. -/
def Host.Ordinary (h : Host) : Prop := h.shared.Stored fun key app => ThreescaleCache.Ordinary key → app.Ordinary

section
variable {h : Host} {c : HostCall}

theorem readsOrdinary_lock {key : Str} (isLock : lockPrefix <+: key)
    (reply : (HostCall.getSharedData key).Reply) : ReadsOrdinary ⟨.getSharedData key, reply⟩ := by
  match reply with
  | .ok (some (.application app), _) => exact fun free => absurd isLock free
  | .ok (some (.appId _), _) | .ok (some (.calloutLock _), _) | .ok (some (.memoryCounter _), _)
  | .ok (none, _) | .error _ => trivial

/-- The traffic of a lock that is not contended for changes nothing else. -/
theorem Host.Ordinary.hidden (ordinary : h.Ordinary) (traffic : LockTraffic c)
    (uncontended : Uncontended ⟨c, (h.exec c).1⟩) :
    Undisturbed ⟨c, (h.exec c).1⟩ ∧ (h.exec c).2.Ordinary ∧ h.unlocked.Surrounds (h.exec c).2.unlocked := by
  cases c with
  | getSharedData key =>
    exact ⟨⟨uncontended, readsOrdinary_lock traffic _⟩, ordinary, .refl _⟩
  | setSharedData key value cas =>
    refine ⟨⟨uncontended, trivial⟩, ?_⟩
    rcases h.shared.set_cases key value cas with put | refused
    · simp only [Host.exec, put]
      refine ⟨ordinary.put fun app _ free => absurd traffic free, ?_⟩
      exact Host.surrounds_passed (SharedData.passed_put_lock traffic value)
    · simp only [Host.exec, refused]
      exact ⟨ordinary, .refl _⟩
  | resolveSharedQueue name => exact ⟨⟨uncontended, trivial⟩, ordinary, .refl _⟩
  | insertWaitingContext f => exact absurd uncontended id
  | enqueueSharedQueue queueId item =>
    cases item with
    | message => exact absurd traffic id
    | waiterAction => exact absurd uncontended id
  | _ => exact absurd traffic id

/-- All other calls have the same outcome without the locks. -/
theorem Host.Ordinary.seen (ordinary : h.Ordinary) (off : KeepsOff c)
    (uncontended : Uncontended ⟨c, (h.exec c).1⟩) :
    Undisturbed ⟨c, (h.exec c).1⟩ ∧ (h.exec c).2.Ordinary ∧
      h.unlocked.exec c = ((h.exec c).1, (h.exec c).2.unlocked) := by
  cases c with
  | getSharedData key =>
    refine ⟨⟨uncontended, ?_⟩, ordinary, ?_⟩
    · cases stored : h.shared.entry key with
      | none =>
        simp only [Host.exec, SharedData.get_absent stored]
        trivial
      | some entry =>
        obtain ⟨value, cas⟩ := entry
        simp only [Host.exec, SharedData.get_present stored]
        cases value with
        | none => trivial
        | some value =>
          cases value with
          | application app => exact ordinary key app cas stored
          | appId | calloutLock | memoryCounter => trivial
    · simp only [Host.exec, Host.unlocked, SharedData.unlocked_get off]
  | setSharedData key value cas =>
    refine ⟨⟨uncontended, trivial⟩, ?_, ?_⟩
    · refine Host.exec_shared (p := SharedData.Stored _) ordinary fun _ _ _ writes => ?_
      cases writes
      exact ordinary.put fun app is _ => off.2 app is
    · simp only [Host.exec, Host.unlocked, SharedData.unlocked_set off.1]
  | insertWaitingContext f => exact absurd off id
  | enqueueSharedQueue queueId item => exact ⟨⟨uncontended, trivial⟩, ordinary, rfl⟩
  | _ => exact ⟨⟨uncontended, trivial⟩, ordinary, rfl⟩

end

theorem keepsOff_apart (c : HostCall) (off : KeepsOff c) : ¬LockTraffic c := by
  intro traffic
  cases c with
  | getSharedData key => exact off traffic
  | setSharedData key value cas => exact off.1 traffic
  | resolveSharedQueue name => exact traffic off
  | insertWaitingContext f => exact off
  | enqueueSharedQueue queueId item =>
    cases item with
    | message => exact traffic
    | waiterAction => exact off
  | _ => exact traffic

omit [DecidableEq ι] in
theorem builds_erasing (rounds : Nat) :
    Erasing (builtParties ι (uniqueCallout rounds)) (builtParties ι uniqueCalloutDummy) LockTraffic KeepsOff
      Uncontended Undisturbed (fun _ => Both fun r => ∀ f, r = some f → f.Ordinary) Host.Ordinary
      Host.unlocked where
  apart := keepsOff_apart
  hid := fun _ _ _ ordinary traffic uncontended => ordinary.hidden traffic uncontended
  seen := fun _ _ _ ordinary off uncontended => ordinary.seen off uncontended
  resume := by
    intro i outcome outcome' t t' p same given
    obtain ⟨rfl, leaves⟩ := same
    cases outcome with
    | some f =>
      obtain ⟨callback, requests, rfl⟩ := given
      exact ⟨_, ⟨callback, requests, rfl⟩, alike_callback (leaves f rfl) requests rounds⟩
    | none =>
      obtain ⟨q, off, rfl⟩ := given
      refine ⟨_, ⟨q, off, rfl⟩, Prog.erases_bind (alike_self off) fun _ _ _ => ?_⟩
      exact Prog.erases_done ⟨rfl, by rintro _ ⟨⟩⟩
  env := by
    rintro h h' ordinary surrounds
    refine ⟨?_, surrounds.unlocked⟩
    obtain ⟨_, _, shared, passed, rfl⟩ := surrounds
    intro key app cas entry
    rw [passed.1] at entry
    exact ordinary key app cas entry

theorem createHttpContext_ordinary (root : CacheFilterRoot) (contextId : Nat) :
    (root.createHttpContext contextId).Ordinary := by
  refine ⟨fun appId isLock => ?_, by rintro _ ⟨⟩⟩
  obtain ⟨first, _⟩ := List.cons_prefix_cons.mp isLock
  exact absurd first (by decide)

/-- The second run is the first one without its locks. -/
structure SameWithoutLocks (s s' : Config ι HostCall HostCall.Reply Host (Option CacheFilter)) : Prop where
  shared : s'.shared = s.shared.unlocked
  trace : s'.trace = visible LockTraffic s.trace
  done : ∀ i outcome, s.procs i = .done outcome → s'.procs i = .done outcome
  panics : ∀ i, s.procs i = .trap → s'.procs i = .trap

/-- However the callbacks are interleaved, as long as no context meets a lock
that is held, the default build can do the same, without the locks. -/
theorem defaultBuild_agrees {contexts : ι → Option (CacheFilterRoot × Nat)} {h : Host} {rounds : Nat}
    {s : Config ι HostCall HostCall.Reply Host (Option CacheFilter)} (ordinary : h.Ordinary)
    (reach : Reach (builtParties ι (uniqueCallout rounds)) anyStep (contextsStart contexts h) s)
    (uncontended : ∀ e ∈ s.trace, Uncontended e.2) :
    ∃ s', Reach (builtParties ι uniqueCalloutDummy) anyStep (contextsStart contexts h.unlocked) s' ∧
      SameWithoutLocks s s' := by
  have start : Erased LockTraffic KeepsOff Undisturbed (fun _ => Both fun r => ∀ f, r = some f → f.Ordinary)
      Host.unlocked (contextsStart contexts h) (contextsStart contexts h.unlocked) := by
    refine ⟨rfl, rfl, fun i => Prog.erases_done ⟨rfl, fun f is => ?_⟩⟩
    obtain ⟨context, _, rfl⟩ := Option.map_eq_some_iff.mp is
    exact createHttpContext_ordinary context.1 context.2
  obtain ⟨_, s', reach', erased⟩ := reach.erased (builds_erasing rounds) ordinary start uncontended
  refine ⟨s', reach', erased.shared, erased.trace, fun i outcome done => ?_, fun i panics => ?_⟩
  · have here := erased.procs i
    rw [done] at here
    obtain ⟨_, at_, same, _⟩ := here
    rw [at_, same]
  · have here := erased.procs i
    rw [panics] at here
    exact here

/-- A context that has missed, and waits for the response. -/
def served : CacheFilter := { hitFilter 1 with state := (hitContext 5).state }

def missed : Config Bool HostCall HostCall.Reply Host (Option CacheFilter) :=
  ((contextsStart (fun _ => some ({ id := 1, config := {} }, 1)) quietHost).resumed true
    ((FilterCallback.requestHeaders hitLib hitHeaders).program (uniqueCallout 3) (hitFilter 1))).play
      (builtParties Bool (uniqueCallout 3)) (List.replicate 6 true)

/-- The context was answered, and then another one has hit the cache. -/
def servedInTurn : Config Bool HostCall HostCall.Reply Host (Option CacheFilter) :=
  ((missed.resumed true ((FilterCallback.callResponse (callResponse "200" (fiveHits true 2))).program
    (uniqueCallout 3) served)).resumed false
      ((FilterCallback.requestHeaders hitLib hitHeaders).program (uniqueCallout 3) (hitFilter 1))).play
      (builtParties Bool (uniqueCallout 3)) (List.replicate 16 true ++ List.replicate 20 false)

theorem defaultBuild_agrees_servedInTurn :
    ∃ s', Reach (builtParties Bool uniqueCalloutDummy) anyStep
        (contextsStart (fun _ => some ({ id := 1, config := {} }, 1)) quietHost.unlocked) s' ∧
      SameWithoutLocks servedInTurn s' := by
  have service : OrdinaryService ['s'] := by
    intro appId isLock
    obtain ⟨first, _⟩ := List.cons_prefix_cons.mp isLock
    exact absurd first (by decide)
  have requests : (FilterCallback.requestHeaders hitLib hitHeaders).Ordinary := by
    intro data requested
    cases requested
    exact ⟨service, by rintro _ ⟨⟩⟩
  have responds : (FilterCallback.callResponse (callResponse "200" (fiveHits true 2))).Ordinary := by
    intro a carried appKeys serviceId listed named
    cases carried
    cases listed
    cases named
    exact service
  have missing : Reach (builtParties Bool (uniqueCallout 3)) anyStep
      (contextsStart (fun _ => some ({ id := 1, config := {} }, 1)) quietHost) missed := by
    refine Reach.play _ (.next .start (.resume (i := true) rfl ?_) trivial)
    exact ⟨_, requests, rfl⟩
  have reach : Reach (builtParties Bool (uniqueCallout 3)) anyStep
      (contextsStart (fun _ => some ({ id := 1, config := {} }, 1)) quietHost) servedInTurn := by
    refine Reach.play _ (.next (.next missing (.resume (a := some served) (i := true) rfl ?_) trivial)
      (.resume (i := false) rfl ?_) trivial)
    · exact ⟨_, responds, rfl⟩
    · exact ⟨_, requests, rfl⟩
  have uncontended : (servedInTurn.trace.all fun e => decide (Uncontended e.2)) = true := by decide
  exact defaultBuild_agrees (by rintro _ _ _ ⟨⟩) reach fun e member =>
    of_decide_eq_true (List.all_eq_true.mp uncontended e member)

end ThreescaleCache
