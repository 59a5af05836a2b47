import ThreescaleCache.Interaction.Safety
import ThreescaleCache.Quota
import ThreescaleCache.Serving
import ThreescaleCache.SoundApplications
import ThreescaleCache.UsageDrain

namespace ThreescaleCache
open Interaction

/-! What keeps the callbacks from panicking, however they are interleaved. -/

/-- The last time that is read, the metrics that requests may count, and the
queue that the singleton has registered. -/
structure Terms where
  latest : Duration
  early : latest.nanos < 2 ^ 63 * 10 ^ 9
  counted : Str → Prop
  queueId : Nat

variable {terms : Terms}

/-- The request of the context counts only such metrics. -/
def CacheFilter.Counts (terms : Terms) (f : CacheFilter) : Prop := f.state.reqData.metrics.Within terms.counted

/-- The context has not run out of tries either. -/
structure CacheFilter.Fresh (terms : Terms) (f : CacheFilter) : Prop where
  counts : f.Counts terms
  unset : f.state.updateCacheFromSingleton = false

/-- A sound application, or a lock without waiters at the queue of the singleton. -/
def SharedValue.Sound (terms : Terms) : SharedValue → Prop
  | .application app => app.Sound terms.latest terms.counted
  | .calloutLock value => ∀ waiter ∈ value.waiters, waiter.queueId ≠ terms.queueId
  | _ => True

/-- A call that leaves such values and such contexts behind, and nothing in the
queue of the singleton that it would panic on. -/
def Sane (terms : Terms) : HostCall → Prop
  | .setSharedData _ (some value) _ => value.Sound terms
  | .insertWaitingContext f => f.Fresh terms
  | .enqueueSharedQueue queueId item => queueId = terms.queueId → PlainItem item
  | _ => True

/-- What is read is sound, the clock is not past `latest`, an erasure is
accepted, and no thread has the queue of the singleton. -/
def Truthful (terms : Terms) : HostEvent → Prop
  | ⟨.getSharedData _, .ok (some value, _)⟩ => value.Sound terms
  | ⟨.setSharedData _ none none, .error _⟩ => False
  | ⟨.getCurrentTime, some now⟩ => now ≤ terms.latest
  | ⟨.getWaitingContext _ _, some f⟩ => f.Fresh terms
  | ⟨.resolveSharedQueue name, some queueId⟩ => ∀ rootId, name = threadQueueName rootId → queueId ≠ terms.queueId
  | ⟨.dequeueSharedQueue queueId, .ok (some item)⟩ => queueId = terms.queueId → PlainItem item
  | _ => True

/-- Under the key of a lock nothing else is read that would be taken for one. -/
def ReadsLocks : HostEvent → Prop
  | ⟨.getSharedData _, .ok (some (.calloutLock _), _)⟩ => True
  | ⟨.getSharedData key, .ok (some value, _)⟩ => isLockKey key = false ∨ value.lock.isNone
  | _ => True

/-- What is exchanged with shared data, no more than a `Vec` can hold. -/
def Exchanged (e : HostEvent) : Prop := HeldByVec e ∧ ReadsLocks e

theorem ReadsLocks.kind {key : Str} {value : SharedValue} {cas : Option Nat} {stored : CalloutLockValue}
    (reads : ReadsLocks ⟨.getSharedData key, .ok (some value, cas)⟩) (isKey : isLockKey key = true)
    (lock : value.lock = some stored) : value = .calloutLock stored := by
  cases value with
  | calloutLock other => exact congrArg SharedValue.calloutLock (Option.some.inj lock)
  | application | appId | memoryCounter =>
    rcases reads with other | none_
    · rw [isKey] at other
      cases other
    · rw [lock] at none_
      cases none_

def Admitted (terms : Terms) (e : HostEvent) : Prop := Exchanged e ∧ Truthful terms e

/-- The program does not panic, and leaves nothing behind that others panic on. -/
abbrev Steady (terms : Terms) {α : Type} (Q : α → Prop) (p : HostProg α) : Prop :=
  p.Safe (Sane terms) (Admitted terms) Q

abbrev Returning {α : Type} : α → Prop := fun _ => True

/-! The cached applications -/

section
variable {app : Application} {cas : Nat} {now : Duration} {data : ThreescaleData}

/-- The calls of a check that passes write nothing but the application that it leaves. -/
theorem sane_check {app' : Application} (sound : app'.Sound terms.latest terms.counted) {c : HostCall}
    (check : CheckCall c ∧ WritesOnly app' c) : Sane terms c := by
  obtain ⟨check, writes⟩ := check
  cases check with
  | checked => trivial
  | filing filing =>
    cases filing with
    | side side => cases side <;> trivial
    | application app cas => exact (writes _ app _ rfl).symm ▸ sound

theorem steady_limitCheck (sound : app.Sound terms.latest terms.counted) (due : now ≤ terms.latest) :
    Steady terms Returning (limitCheckAndUpdateApplication data app cas now) := by
  have decided := limitCheck_decision {} data.metrics.nodupKeys (sound.ready due terms.early data.metrics.entries)
  refine Prog.safe_of_returns (B := Sane terms) (returns_limitCheckAndUpdate decided) ?_ (fun _ sane => sane)
    fun e _ admitted => admitted.1.1
  cases verdict : limitCheck now data.metrics.entries app {} with
  | pass app' info =>
    exact ((only_limitCheckAndUpdate data app cas now).and (only_check_writesOnly verdict)).mono
      fun _ => sane_check (sound.passes verdict)
  | limited | overflow =>
    simp only [limitCheckAndUpdateApplication, verdict]
    exact ⟨trivial, fun _ => trivial⟩
  | trap =>
    simp only [limitCheckAndUpdateApplication, verdict]
    trivial

theorem steady_getApplicationFromCache (key : CacheKey) :
    Steady terms (fun r => ∀ app cas, r = .ok (app, cas) → app.Sound terms.latest terms.counted)
      (getApplicationFromCache key) := by
  refine ⟨trivial, fun r admitted => ?_⟩
  match r, admitted with
  | .ok (some (.application app), some cas), admitted =>
    intro _ _ is
    cases is
    exact admitted.2
  | .ok (some (.appId _), some _), _ | .ok (some (.calloutLock _), some _), _
  | .ok (some (.memoryCounter _), some _), _ | .ok (some _, none), _ | .ok (none, _), _ | .error _, _ =>
    rintro _ _ ⟨⟩

theorem steady_getAppIdFromCache (userKey : UserKey) :
    Steady terms Returning (getAppIdFromCache userKey) := by
  rw [getAppIdFromCache_eq]
  exact ⟨trivial, fun _ _ => trivial⟩

theorem steady_setApplicationToCache (sound : app.Sound terms.latest terms.counted) :
    Steady terms Returning (setApplicationToCache app.cacheKey.asString app cas) := by
  have side : ∀ c, SideCall c → Sane terms c := by
    intro c side
    cases side <;> trivial
  refine Prog.safe_of_returns (B := Sane terms) returns_setApplicationToCache ?_ (fun _ sane => sane)
    fun e _ admitted => admitted.1.1
  refine Prog.only_bind ((only_getCachePairSize _).mono side) fun size => ?_
  cases size with
  | error e => trivial
  | ok previous =>
    refine ⟨sound, fun reply => ?_⟩
    cases reply with
    | error e => trivial
    | ok =>
      show Prog.Only (Sane terms) (retryUpdateSharedMemorySize _ 3 >>= _)
      exact Prog.only_bind ((only_retryUpdateSharedMemorySize _ 3).mono side) fun _ => trivial

end

/-! The cache hit -/

section
variable {f : CacheFilter} {app : Application} {cas : Nat} {now : Duration}

/-- The context that a callback leaves counts only such metrics, too. -/
abbrev Leaving (terms : Terms) {α : Type} (r : CacheFilter × α) : Prop := r.1.Counts terms

theorem steady_inRequestFailure (counts : f.Counts terms) :
    Steady terms (Leaving terms) f.inRequestFailure := by
  unfold CacheFilter.inRequestFailure
  dsimp only
  split
  · exact ⟨trivial, fun _ _ => counts⟩
  · exact counts

theorem steady_onlyIf {c : Prop} [Decidable c] {p : HostProg Unit} (steady : Steady terms Returning p) :
    Steady terms Returning (onlyIf c p) := by
  unfold onlyIf
  split
  · exact steady
  · trivial

theorem steady_requestProcessFailure (counts : f.Counts terms) :
    Steady terms (CacheFilter.Counts terms) f.requestProcessFailure :=
  Prog.safe_bind (steady_onlyIf ⟨trivial, fun _ _ => trivial⟩) fun _ _ => ⟨trivial, fun _ _ => counts⟩

theorem steady_onAuthorizedTry (fresh : f.Fresh terms) (queueId cas : Nat) (now : Duration)
    (info : RateLimitInfo) :
    Steady terms (Leaving terms) (f.onAuthorizedTry queueId now cas info) := by
  refine Prog.safe_bind (steady_onlyIf ⟨trivial, fun _ _ => trivial⟩) fun _ _ => ?_
  refine ⟨fun _ => ⟨_, rfl, fresh.unset⟩, fun reply _ => ?_⟩
  cases reply with
  | ok => exact ⟨trivial, fun _ _ => fresh.counts⟩
  | error e => exact ⟨trivial, fun _ _ => fresh.counts⟩

theorem steady_cacheHitTries (due : now ≤ terms.latest) (queueId tries : Nat) (fresh : f.Fresh terms)
    (sound : app.Sound terms.latest terms.counted) :
    Steady terms (Leaving terms) (CacheFilter.cacheHitTries queueId now tries f app cas) := by
  induction tries generalizing app cas with
  | zero => exact ⟨trivial, fun _ _ => fresh.counts⟩
  | succ tries ih =>
    refine Prog.safe_bind (steady_limitCheck sound due) fun r _ => ?_
    match r with
    | .ok (.authorized info) => exact steady_onAuthorizedTry fresh queueId cas now info
    | .ok (.rateLimited info) => exact ⟨trivial, fun _ _ => fresh.counts⟩
    | .error .durationOverflow => exact fresh.counts
    | .error (.cacheUpdateFail _) =>
      refine Prog.safe_bind (steady_getApplicationFromCache _) fun again known => ?_
      match again, known with
      | .ok (app, cas), known => exact ih (known app cas rfl)
      | .error e, _ => exact fresh.counts

theorem steady_handleCacheHit (fresh : f.Fresh terms) (sound : app.Sound terms.latest terms.counted) :
    Steady terms (Leaving terms) (f.handleCacheHit app cas) := by
  rw [handleCacheHit_eq]
  refine ⟨trivial, fun _ _ => ⟨trivial, fun queue _ => ?_⟩⟩
  cases queue with
  | none => exact fresh.counts
  | some queueId =>
    refine ⟨trivial, fun reading admitted => ?_⟩
    cases reading with
    | none => exact fresh.counts
    | some now =>
      obtain ⟨final, expands⟩ := sound.expands fresh.counts
      dsimp only
      rw [expands]
      exact steady_cacheHitTries admitted.2 queueId _ fresh sound

theorem steady_cacheHitOrFail (fresh : f.Fresh terms) (sound : app.Sound terms.latest terms.counted) :
    Steady terms (Leaving terms) (f.cacheHitOrFail app cas) := by
  refine Prog.safe_bind (steady_handleCacheHit fresh sound) fun r left => ?_
  match r, left with
  | (f, .ok ()), left => exact left
  | (f, .error e), left => exact steady_inRequestFailure left

end

/-! The callout-lock -/

section
variable {f : CacheFilter}

theorem steady_setCalloutLockLoop (fresh : f.Fresh terms) {key : Str} (isKey : isLockKey key = true)
    {waiter : CalloutWaiter}
    (elsewhere : waiter.queueId ≠ terms.queueId) (rounds : Nat) (seen : Option Nat) :
    Steady terms Returning (setCalloutLockLoop f key waiter rounds seen) := by
  have unawaited : ∀ other ∈ ([] : List CalloutWaiter), other.queueId ≠ terms.queueId := by
    rintro _ ⟨⟩
  induction rounds generalizing seen with
  | zero => trivial
  | succ rounds ih =>
    refine ⟨trivial, fun reading admitted => ?_⟩
    match reading, admitted with
    | .error e, _ => trivial
    | .ok (none, none), _ | .ok (some _, none), _ =>
      refine ⟨unawaited, fun reply _ => ?_⟩
      match reply with
      | .error .casMismatch => exact ih _
      | .ok () | .error .notFound | .error .badArgument | .error .empty | .error .internalFailure => trivial
    | .ok (some value, some cas), admitted =>
      dsimp only [Prog.bind]
      cases lock : value.lock with
      | none => trivial
      | some stored =>
        obtain rfl := admitted.1.2.kind isKey lock
        have others : ∀ other ∈ stored.waiters, other.queueId ≠ terms.queueId := admitted.2
        refine ⟨List.forall_mem_append.mpr ⟨others, List.forall_mem_singleton.mpr elsewhere⟩, fun reply _ => ?_⟩
        match reply with
        | .error .casMismatch => exact ih _
        | .ok () | .error .notFound | .error .badArgument | .error .empty | .error .internalFailure =>
          exact ⟨fresh, fun _ _ => trivial⟩
    | .ok (none, some cas), _ =>
      cases seen with
      | some owner => trivial
      | none =>
        refine ⟨unawaited, fun reply _ => ?_⟩
        match reply with
        | .error .casMismatch => exact ih _
        | .ok () | .error .notFound | .error .badArgument | .error .empty | .error .internalFailure => trivial

theorem steady_setCalloutLock (fresh : f.Fresh terms) (rounds : Nat) :
    Steady terms Returning (setCalloutLock rounds f) := by
  refine ⟨trivial, fun queue admitted => ?_⟩
  cases queue with
  | none => trivial
  | some queueId =>
    exact steady_setCalloutLockLoop fresh (isLockKey_calloutLockKey _) (admitted.2 f.rootId rfl) rounds none

/-- Nothing is put into the queue of the singleton for the waiters. -/
theorem steady_notifyWaiters (action : WaiterAction) {waiters : List CalloutWaiter}
    (elsewhere : ∀ waiter ∈ waiters, waiter.queueId ≠ terms.queueId) :
    Steady terms Returning (notifyWaiters action waiters) := by
  induction waiters with
  | nil => trivial
  | cons waiter rest ih =>
    exact ⟨fun own => absurd own (elsewhere waiter List.mem_cons_self),
      fun _ _ => ih fun other member => elsewhere other (List.mem_cons_of_mem _ member)⟩

/-- The erasure of the lock is accepted whatever is stored. -/
theorem steady_freeCalloutLock (cacheKey : CacheKey) (action : WaiterAction) :
    Steady terms Returning (freeCalloutLockAndNotifyWaiters cacheKey action) := by
  refine ⟨trivial, fun reading admitted => ?_⟩
  match reading, admitted with
  | .ok (some value, _), admitted =>
    dsimp only [Prog.bind]
    cases read : value.lock with
    | none => trivial
    | some lock =>
      obtain rfl := admitted.1.2.kind (isLockKey_calloutLockKey cacheKey) read
      refine Prog.safe_bind (p := notifyWaiters action lock.waiters) (steady_notifyWaiters action admitted.2)
        fun _ _ => ?_
      refine ⟨trivial, fun reply admitted => ?_⟩
      cases reply with
      | ok => trivial
      | error e => exact admitted.2
  | .ok (none, _), _ | .error _, _ => trivial

end

/-! The callbacks of the contexts -/

section
variable {f : CacheFilter}

theorem steady_doAuthCall (lib : ThirdParty) (counts : f.Counts terms) :
    Steady terms (Leaving terms) (f.doAuthCall lib) := by
  unfold CacheFilter.doAuthCall
  cases lib.buildApiCall (CacheFilter.authorizeCall f.state.reqData) with
  | none => exact steady_inRequestFailure counts
  | some request =>
    refine ⟨trivial, fun reply _ => ?_⟩
    cases reply with
    | ok token => exact counts
    | error e => exact steady_inRequestFailure counts

theorem steady_lookUp {ε α : Type} {lib : ThirdParty} {rounds : Nat} {Q : α → Prop}
    {read : HostProg (Except ε α)} {found : α → HostProg (CacheFilter × Action)} (fresh : f.Fresh terms)
    (reads : Steady terms (fun r => ∀ a, r = .ok a → Q a) read)
    (hits : ∀ a, Q a → Steady terms (Leaving terms) (found a)) :
    Steady terms (Leaving terms) (f.lookUp lib rounds read found) := by
  refine Prog.safe_bind reads fun first known => ?_
  cases first with
  | ok a => exact hits a (known a rfl)
  | error e =>
    refine ⟨trivial, fun _ _ => ?_⟩
    refine Prog.safe_bind (p := setCalloutLock rounds f) (steady_setCalloutLock fresh rounds) fun status _ => ?_
    match status with
    | .ok .lockAcquired => exact steady_doAuthCall lib fresh.counts
    | .ok .addedToWaitlist => exact fresh.counts
    | .error _ => exact steady_inRequestFailure fresh.counts
    | .ok .responseCameFirst =>
      refine Prog.safe_bind reads fun second known => ?_
      cases second with
      | ok a => exact hits a (known a rfl)
      | error e => exact steady_inRequestFailure fresh.counts

theorem steady_lookupApplication (lib : ThirdParty) (rounds : Nat)
    (fresh : f.Fresh terms) :
    Steady terms (Leaving terms) (f.lookupApplication lib rounds) := by
  rw [lookupApplication_eq]
  refine steady_lookUp (Q := fun found => found.1.Sound terms.latest terms.counted) fresh ?_ fun found sound =>
    steady_cacheHitOrFail fresh sound
  exact (steady_getApplicationFromCache _).mono fun _ known found is => known found.1 found.2 is

theorem steady_onHttpRequestHeaders {lib : ThirdParty}
    {headers : Str → Option Str} (fresh : f.Fresh terms)
    (requests : ∀ data, CacheFilter.getRequestData lib headers = .ok data → data.metrics.Within terms.counted)
    (rounds : Nat) : Steady terms (Leaving terms) (f.onHttpRequestHeaders lib rounds headers) := by
  unfold CacheFilter.onHttpRequestHeaders
  cases requested : CacheFilter.getRequestData lib headers with
  | error e => exact ⟨trivial, fun _ _ => ⟨trivial, fun _ _ => fresh.counts⟩⟩
  | ok data =>
    dsimp only
    cases data.appId with
    | userKey userKey =>
      dsimp only
      rw [onUserKey_eq]
      refine steady_lookUp (Q := Returning) ⟨requests data requested, fresh.unset⟩ ?_ fun appId _ => ?_
      · exact (steady_getAppIdFromCache userKey).mono fun _ _ _ _ => trivial
      · exact steady_lookupApplication lib rounds ⟨requests data requested, fresh.unset⟩
    | appId id key => exact steady_lookupApplication lib rounds ⟨requests data requested, fresh.unset⟩

theorem steady_addRateLimitHeader (name : String) (value : Option UInt64) :
    Steady terms Returning (CacheFilter.addRateLimitHeader name value) := by
  cases value with
  | none => trivial
  | some value => exact ⟨trivial, fun _ _ => trivial⟩

theorem steady_onHttpResponseHeaders (f : CacheFilter) :
    Steady terms Returning f.onHttpResponseHeaders := by
  refine Prog.safe_bind (steady_addRateLimitHeader _ _) fun _ _ => ?_
  refine Prog.safe_bind (steady_addRateLimitHeader _ _) fun _ _ => ?_
  exact Prog.safe_bind (steady_addRateLimitHeader _ _) fun _ _ => trivial

theorem steady_recordAppId (fresh : f.Fresh terms) (appId : AppId) :
    Steady terms (fun r => r.1.Fresh terms) (f.recordAppId appId) := by
  unfold CacheFilter.recordAppId
  split
  · refine ⟨trivial, fun reply _ => ?_⟩
    cases reply with
    | ok => exact ⟨fresh.counts, fresh.unset⟩
    | error e => exact ⟨fresh.counts, fresh.unset⟩
  · exact fresh

theorem steady_handleAuthResponse (fresh : f.Fresh terms)
    {a : AuthorizationStatus} (sound : a.Sound terms.latest terms.counted) :
    Steady terms (Leaving terms) (f.handleAuthResponse a) := by
  unfold CacheFilter.handleAuthResponse
  cases ids : CacheFilter.authResponseIds a with
  | error e => exact fresh.counts
  | ok triple =>
    obtain ⟨appKeys, appId, serviceId⟩ := triple
    refine Prog.safe_bind (steady_recordAppId fresh appId) fun recorded fresh => ?_
    match recorded, fresh with
    | (f, .error e), fresh => exact fresh.counts
    | (f, .ok ()), fresh =>
      dsimp only
      cases formed : CacheFilter.authResponseApplication a appKeys appId serviceId with
      | none => exact fresh.counts
      | some app =>
        obtain ⟨state, run, is⟩ := Option.bind_eq_some_iff.mp formed
        cases is
        refine Prog.safe_bind (steady_handleCacheHit ⟨fresh.counts, fresh.unset⟩ (sound.application run rfl)) fun r left => ?_
        match r, left with
        | (f, .ok ()), left => exact left
        | (f, .error e), left => exact left

/-- What the filter needs of a response that it can parse. -/
structure AuthorizationStatus.Handled (terms : Terms) (a : AuthorizationStatus) : Prop where
  sound : a.Sound terms.latest terms.counted
  reasoned : a.isAuthorized = false → a.usageReports = none → a.reason.isSome

theorem steady_onAuthorization (fresh : f.Fresh terms)
    {authorization : Authorization}
    (handled : ∀ a, authorization = .status a → a.Handled terms) :
    Steady terms (Leaving terms) (f.onAuthorization authorization) := by
  unfold CacheFilter.onAuthorization
  cases authorization with
  | error e => exact Prog.safe_bind (steady_requestProcessFailure fresh.counts) fun _ counts => counts
  | status a =>
    obtain ⟨sound, reasoned⟩ := handled a rfl
    dsimp only
    split
    · refine Prog.safe_bind (steady_handleAuthResponse fresh sound) fun r left => ?_
      match r, left with
      | (f, .error e), left => exact Prog.safe_bind (steady_requestProcessFailure left) fun _ counts => counts
      | (f, .ok ()), left => exact left
    · rename_i refused
      obtain ⟨unauthorized, unreported⟩ : a.isAuthorized = false ∧ a.usageReports = none := by
        simpa using refused
      refine ⟨trivial, fun _ _ => ?_⟩
      cases given : a.reason with
      | some reason => exact ⟨trivial, fun _ _ => fresh.counts⟩
      | none =>
        have reason := reasoned unauthorized unreported
        rw [given] at reason
        cases reason

/-- What the filter needs of what the host delivers. -/
structure CallResponse.Handled (terms : Terms) (r : CallResponse) : Prop where
  status : r.status.isSome
  utf8 : r.body ≠ some .notUtf8
  authorization : ∀ a, r.body = some (.parsed (.status a)) → a.Handled terms

theorem steady_onCallResult (fresh : f.Fresh terms)
    {response : CallResponse} (handled : response.Handled terms) (status : Str) :
    Steady terms (Leaving terms) (f.onCallResult status response.body) := by
  have fails : Steady terms (Leaving terms) (f.requestProcessFailure >>= fun f =>
      (pure (f, some (.handleFailure 0)) : HostProg (CacheFilter × Option WaiterAction))) :=
    Prog.safe_bind (steady_requestProcessFailure fresh.counts) fun _ counts => counts
  unfold CacheFilter.onCallResult
  split
  · cases carried : response.body with
    | none => exact fails
    | some body =>
      cases body with
      | notUtf8 => exact absurd carried handled.utf8
      | unparsable => exact fails
      | parsed authorization =>
        refine steady_onAuthorization fresh fun a is => handled.authorization a ?_
        rw [carried, is]
  · exact ⟨trivial, fun _ _ => fails⟩

theorem steady_onHttpCallResponse (fresh : f.Fresh terms)
    {response : CallResponse} (handled : response.Handled terms) :
    Steady terms (CacheFilter.Counts terms) (f.onHttpCallResponse response) := by
  unfold CacheFilter.onHttpCallResponse
  cases arrived : response.status with
  | none =>
    have status := handled.status
    rw [arrived] at status
    cases status
  | some status =>
    refine Prog.safe_bind (steady_onCallResult fresh handled status) fun outcome left => ?_
    match outcome, left with
    | (_, none), left => exact left
    | (_, some action), left => exact Prog.safe_bind (steady_freeCalloutLock _ action) fun _ _ => left

end

/-! The callbacks of the roots and of the singleton -/

theorem steady_lookupForWaiter {context : CacheFilter}
    (fresh : context.Fresh terms) :
    Steady terms Returning (CacheFilterRoot.lookupForWaiter context) := by
  refine Prog.safe_bind (steady_getApplicationFromCache _) fun found known => ?_
  match found, known with
  | .error e, _ => trivial
  | .ok (app, cas), known =>
    refine Prog.safe_bind (steady_handleCacheHit fresh (known app cas rfl)) fun r left => ?_
    match r, left with
    | (context, .error e), left => exact Prog.safe_bind (steady_requestProcessFailure left) fun _ _ => trivial
    | (_, .ok ()), _ => exact ⟨trivial, fun _ _ => trivial⟩

theorem steady_wakeWaiter {context : CacheFilter}
    (fresh : context.Fresh terms) (action : WaiterAction) :
    Steady terms Returning (CacheFilterRoot.wakeWaiter context action) := by
  cases action with
  | handleFailure id => exact Prog.safe_bind (steady_requestProcessFailure fresh.counts) fun _ _ => trivial
  | handleCacheHit id =>
    show Steady terms Returning (CacheFilterRoot.resumeCacheHit context)
    unfold CacheFilterRoot.resumeCacheHit
    split
    · refine Prog.safe_bind (steady_getAppIdFromCache _) fun mapped _ => ?_
      cases mapped with
      | error e => trivial
      | ok appId => exact steady_lookupForWaiter ⟨fresh.counts, fresh.unset⟩
    · exact steady_lookupForWaiter fresh

theorem steady_rootQueueReady (root : CacheFilterRoot) (queueId : Nat) :
    Steady terms Returning (root.onQueueReady queueId) := by
  refine ⟨trivial, fun reply _ => ?_⟩
  match reply with
  | .ok (some (.message _)) | .ok none | .error _ => trivial
  | .ok (some (.waiterAction action)) =>
    refine ⟨trivial, fun waiting admitted => ?_⟩
    cases waiting with
    | none => trivial
    | some context =>
      refine ⟨trivial, fun effective _ => ?_⟩
      cases effective with
      | error e => exact ⟨trivial, fun _ _ => trivial⟩
      | ok =>
        refine Prog.safe_bind (p := CacheFilterRoot.wakeWaiter context action)
          (steady_wakeWaiter admitted.2 action) fun _ _ => ⟨trivial, fun _ _ => trivial⟩

/-- What the singleton needs of a response that it can parse. -/
structure AuthorizationStatus.Refreshes (terms : Terms) (a : AuthorizationStatus) :
    Prop where
  sound : a.Sound terms.latest terms.counted
  named : ∀ appKeys ∈ a.appKeys, appKeys.appId.isSome ∧ appKeys.serviceId.isSome

theorem steady_refreshApplication {a : AuthorizationStatus} (refreshes : a.Refreshes terms) :
    Steady terms Returning (SingletonService.refreshApplication a) := by
  unfold SingletonService.refreshApplication
  cases listed : a.appKeys with
  | none => trivial
  | some appKeys =>
    obtain ⟨appNamed, serviceNamed⟩ := refreshes.named appKeys listed
    obtain ⟨appId, app⟩ := Option.isSome_iff_exists.mp appNamed
    obtain ⟨serviceId, service⟩ := Option.isSome_iff_exists.mp serviceNamed
    dsimp only
    rw [app, service]
    cases reported : a.usageReports with
    | none => trivial
    | some reports =>
      dsimp only
      cases formed : SingletonService.refreshedApplication a reports appKeys appId serviceId with
      | none => trivial
      | some app =>
        obtain ⟨state, run, is⟩ := Option.bind_eq_some_iff.mp formed
        cases is
        refine Prog.safe_bind (steady_setApplicationToCache (refreshes.sound.application ?_ rfl)) fun r _ => ?_
        · rw [reported]
          exact run
        · cases r with
          | ok => trivial
          | error e => trivial

theorem steady_handleRefresh {body : ResponseBody} {status : Str} (utf8 : body ≠ .notUtf8)
    (refreshes : ∀ a, body = .parsed (.status a) →
      a.isAuthorized || status = SingletonService.rateLimitStatus → a.Refreshes terms) :
    Steady terms Returning (SingletonService.handleAuthResponse body status) := by
  unfold SingletonService.handleAuthResponse
  match body, utf8, refreshes with
  | .notUtf8, utf8, _ => exact absurd rfl utf8
  | .unparsable, _, _ | .parsed (.error _), _, _ => trivial
  | .parsed (.status a), _, refreshes =>
    dsimp only
    split
    · rename_i taken
      exact steady_refreshApplication (refreshes a rfl taken)
    · trivial

/-- What the singleton needs of what the host delivers. -/
structure CallResponse.Refreshes (terms : Terms) (r : CallResponse) : Prop where
  status : r.status.isSome
  utf8 : r.body ≠ some .notUtf8
  authorization : ∀ a, r.body = some (.parsed (.status a)) →
    a.isAuthorized || r.status = some SingletonService.rateLimitStatus → a.Refreshes terms

theorem steady_handleAuthFailure (s : SingletonService) (token : Nat) :
    Steady terms Returning (s.handleAuthFailure token) := by
  unfold SingletonService.handleAuthFailure
  cases s.authRequests.lookup token with
  | none => trivial
  | some cacheKey => exact ⟨trivial, fun _ _ => ⟨trivial, fun _ _ => trivial⟩⟩

theorem steady_refreshResponse (s : SingletonService) (token : Nat) {response : CallResponse}
    (refreshes : response.Refreshes terms) :
    Steady terms Returning (s.onHttpCallResponse token response) := by
  unfold SingletonService.onHttpCallResponse
  cases arrived : response.status with
  | none =>
    have status := refreshes.status
    rw [arrived] at status
    cases status
  | some status =>
    dsimp only
    split
    · cases carried : response.body with
      | none =>
        dsimp only
        split <;> trivial
      | some bytes =>
        refine Prog.safe_bind (steady_handleRefresh ?_ fun a is taken => ?_) fun result _ => ?_
        · exact fun is => refreshes.utf8 (carried.trans (congrArg some is))
        · exact refreshes.authorization a (carried.trans (congrArg some is)) (by simpa [arrived] using taken)
        · split
          · exact steady_handleAuthFailure s token
          · trivial
    · refine ⟨trivial, fun _ _ => ?_⟩
      show Steady terms Returning (if _ then _ else if _ then _ else _)
      split
      · trivial
      · split <;> trivial

theorem sane_flushCall {c : HostCall} (flush : SingletonService.FlushCall c) : Sane terms c := by
  cases flush
  trivial

/-- The queue of the singleton holds nothing that would make it panic. -/
theorem steady_singletonQueueReady {calls : ApiCalls} (builds : ∀ call, (calls.buildReport call).isSome)
    (sizes : Sizes) {s : SingletonService} {config : DeltaStoreConfig}
    (serviceable : s.Serviceable terms.queueId config) :
    Steady terms Returning (s.onQueueReady calls sizes) := by
  unfold SingletonService.onQueueReady
  rw [serviceable.registered]
  refine ⟨trivial, fun reply admitted => ?_⟩
  match reply, admitted with
  | .error _, _ | .ok none, _ => trivial
  | .ok (some item), admitted =>
    obtain ⟨message, rfl, unset⟩ := admitted.2 rfl
    show Steady terms Returning (if message.updateCacheFromSingleton = true then _ else _)
    rw [unset, if_neg Bool.false_ne_true]
    exact Prog.safe_of_returns (returns_recordUsage (fun _ => True) builds serviceable.separated message.data)
      (SingletonService.only_recordUsage calls sizes s message.data) (fun _ => sane_flushCall) fun _ _ _ => trivial

theorem steady_singletonTick {calls : ApiCalls} (builds : ∀ call, (calls.buildReport call).isSome)
    {s : SingletonService} {config : DeltaStoreConfig} (serviceable : s.Serviceable terms.queueId config) :
    Steady terms Returning (s.onTick calls) :=
  Prog.safe_of_returns (returns_onTick builds serviceable.separated) (SingletonService.only_onTick calls s)
    (fun _ => sane_flushCall) fun _ flush _ => plain_takeless (SingletonService.takeless_flushCall flush)

/-! Contexts, roots and the singleton at work -/

/-- What a context is called for. -/
inductive ContextTask where
  | requestHeaders (lib : ThirdParty) (rounds : Nat) (headers : Str → Option Str)
  | responseHeaders
  | callResponse (response : CallResponse)

def ContextTask.program (f : CacheFilter) : ContextTask → HostProg CacheFilter
  | .requestHeaders lib rounds headers => do
    let (f, _) ← f.onHttpRequestHeaders lib rounds headers
    pure f
  | .responseHeaders => do
    let _ ← f.onHttpResponseHeaders
    pure f
  | .callResponse response => f.onHttpCallResponse response

/-- Requests count no metric that is the child of another, and responses are
complete, with windows that are as long as their periods. A context that has
released its request after its last try gets neither. -/
def ContextTask.Orderly (terms : Terms) (f : CacheFilter) : ContextTask → Prop
  | .requestHeaders lib _ headers => f.state.updateCacheFromSingleton = false ∧
    ∀ data, CacheFilter.getRequestData lib headers = .ok data → data.metrics.Within terms.counted
  | .responseHeaders => True
  | .callResponse response => f.state.updateCacheFromSingleton = false ∧ response.Handled terms

def Occasion.Orderly (terms : Terms) : Occasion → Prop
  | .queueReady => True
  | .tick => True
  | .response _ reply => reply.Refreshes terms

/-- What a context, a root or the singleton keeps between two callbacks. -/
inductive Party where
  | context (f : CacheFilter)
  | root (root : CacheFilterRoot)
  | singleton (s : SingletonService)

/-- The callbacks that a party gets. -/
inductive Party.Callback (terms : Terms) : Party → HostProg Party → Prop
  | context {f : CacheFilter} {task : ContextTask} (orderly : task.Orderly terms f) :
      Callback terms (.context f) (task.program f >>= fun f => pure (.context f))
  | root (root : CacheFilterRoot) (queueId : Nat) :
      Callback terms (.root root) (root.onQueueReady queueId >>= fun _ => pure (.root root))
  | singleton {s : SingletonService} {calls : ApiCalls} (sizes : Sizes) {occasion : Occasion}
      (builds : ∀ call, (calls.buildReport call).isSome) (orderly : occasion.Orderly terms) :
      Callback terms (.singleton s) (occasion.callback calls sizes s >>= fun r => pure (.singleton r.1))

/-- The request of a context counts only such metrics; the singleton has its
queue, and separators in the keys of its store. -/
def Party.Sound (terms : Terms) : Party → Prop
  | .context f => f.Counts terms
  | .root _ => True
  | .singleton s => s.Serviceable terms.queueId s.deltaStore.config

theorem steady_contextTask {f : CacheFilter} (counts : f.Counts terms) {task : ContextTask}
    (orderly : task.Orderly terms f) : Steady terms (CacheFilter.Counts terms) (task.program f) := by
  cases task with
  | requestHeaders lib rounds headers =>
    exact Prog.safe_bind (steady_onHttpRequestHeaders ⟨counts, orderly.1⟩ orderly.2 rounds) fun _ left => left
  | responseHeaders => exact Prog.safe_bind (steady_onHttpResponseHeaders f) fun _ _ => counts
  | callResponse response => exact steady_onHttpCallResponse ⟨counts, orderly.1⟩ orderly.2

theorem steady_occasion {calls : ApiCalls} (builds : ∀ call, (calls.buildReport call).isSome) (sizes : Sizes)
    {s : SingletonService} (serviceable : s.Serviceable terms.queueId s.deltaStore.config) {occasion : Occasion}
    (orderly : occasion.Orderly terms) : Steady terms Returning (occasion.callback calls sizes s) := by
  cases occasion with
  | queueReady => exact steady_singletonQueueReady builds sizes serviceable
  | tick => exact steady_singletonTick builds serviceable
  | response token response =>
    exact Prog.safe_bind (steady_refreshResponse s token orderly) fun _ _ => trivial

/-- A callback leaves its party as sound as it was. -/
theorem steady_callback {party : Party} (sound : party.Sound terms) {p : HostProg Party}
    (given : party.Callback terms p) : Steady terms (Party.Sound terms) p := by
  cases given with
  | context orderly => exact Prog.safe_bind (steady_contextTask sound orderly) fun _ counts => counts
  | root root queueId => exact Prog.safe_bind (steady_rootQueueReady root queueId) fun _ _ => trivial
  | singleton sizes builds orderly =>
    refine Prog.safe_bind ((steady_occasion builds sizes sound orderly).returning fun t r path =>
      SingletonService.Serviceable.callback sound path) fun r ⟨_, serviceable⟩ => ?_
    exact ⟨serviceable.registered, serviceable.separated, rfl⟩

variable {ι : Type} [DecidableEq ι]

/-- Contexts, roots and the singleton, each with one callback after the other. -/
def orderlyParties (ι : Type) (terms : Terms) : Parties ι HostCall HostCall.Reply Host Party where
  exec := fun _ => Host.exec
  env := Host.Env
  resume := fun _ party _ p => party.Callback terms p

def orderlyStart (parties : ι → Party) (h : Host) : Config ι HostCall HostCall.Reply Host Party where
  shared := h
  procs := fun i => .done (parties i)
  trace := []

def ReadsUntil (latest : Duration) : HostEvent → Prop
  | ⟨.getCurrentTime, some now⟩ => now ≤ latest
  | _ => True

/-- What can be exchanged is, at a time that is not past `latest`. -/
def InTime (latest : Duration) (e : HostEvent) : Prop := Exchanged e ∧ ReadsUntil latest e

instance (e : HostEvent) : Decidable (HeldByVec e) := by
  unfold HeldByVec
  split <;> infer_instance

instance (e : HostEvent) : Decidable (ReadsLocks e) := by
  unfold ReadsLocks
  split <;> infer_instance

instance (e : HostEvent) : Decidable (Exchanged e) := inferInstanceAs (Decidable (_ ∧ _))

instance {latest : Duration} (e : HostEvent) : Decidable (ReadsUntil latest e) := by
  unfold ReadsUntil
  split <;> infer_instance

instance {latest : Duration} (e : HostEvent) : Decidable (InTime latest e) :=
  inferInstanceAs (Decidable (_ ∧ _))

/-- All that is stored is sound, all contexts that wait are fresh, and the queue
of the singleton, which no thread has, holds messages that want no update. -/
structure HostSound (terms : Terms) (h : Host) : Prop where
  stored : ∀ key value cas, h.shared.entry key = some (some value, cas) → value.Sound terms
  waiting : ∀ rootId contextId f, h.waiting rootId contextId = some f → f.Fresh terms
  queue : ∀ item ∈ h.queues terms.queueId, PlainItem item
  threads : ∀ rootId, h.queueIds (threadQueueName rootId) ≠ some terms.queueId

namespace HostSound
variable {h : Host} {c : HostCall}

theorem truthful (sound : HostSound terms h) (inTime : InTime terms.latest ⟨c, (h.exec c).1⟩) :
    Truthful terms ⟨c, (h.exec c).1⟩ := by
  cases c with
  | getSharedData key =>
    cases stored : h.shared.entry key with
    | none =>
      simp only [Host.exec, SharedData.get_absent stored]
      trivial
    | some entry =>
      obtain ⟨value, cas⟩ := entry
      simp only [Host.exec, SharedData.get_present stored]
      cases value with
      | none => trivial
      | some value => exact sound.stored key value cas stored
  | setSharedData key value cas =>
    cases value with
    | some => trivial
    | none =>
      cases cas with
      | some => trivial
      | none =>
        simp only [Host.exec, SharedData.set_overwrite h.shared key none (rfl : (none : Option Nat).getD 0 = 0)]
        trivial
  | getCurrentTime =>
    cases reading : h.clock with
    | none =>
      simp only [Host.exec, reading]
      trivial
    | some now =>
      have due := inTime.2
      simp only [Host.exec, reading] at due ⊢
      exact due
  | getWaitingContext rootId contextId =>
    cases waits : h.waiting rootId contextId with
    | none =>
      simp only [Host.exec, waits]
      trivial
    | some f =>
      simp only [Host.exec, waits]
      exact sound.waiting rootId contextId f waits
  | resolveSharedQueue name =>
    cases resolved : h.queueIds name with
    | none =>
      simp only [Host.exec, resolved]
      trivial
    | some queueId =>
      simp only [Host.exec, resolved]
      rintro rootId rfl rfl
      exact sound.threads rootId resolved
  | dequeueSharedQueue queueId =>
    cases held : h.queues queueId with
    | nil =>
      simp only [Host.exec, held, List.head?_nil]
      trivial
    | cons item rest =>
      simp only [Host.exec, held, List.head?_cons]
      rintro rfl
      exact sound.queue item (held ▸ List.mem_cons_self)
  | _ => trivial

theorem stored_exec (sound : HostSound terms h) (sane : Sane terms c) :
    ∀ key value cas, (h.exec c).2.shared.entry key = some (some value, cas) → value.Sound terms := by
  refine Host.exec_shared (p := fun d => ∀ key value cas, d.entry key = some (some value, cas) → value.Sound terms)
    sound.stored fun written value _ writes => ?_
  subst writes
  intro key other cas here
  by_cases same : key = written
  · subst same
    rw [SharedData.put_entry_self] at here
    cases here
    exact sane
  · rw [SharedData.put_entry_ne _ _ same] at here
    exact sound.stored key other cas here

/-- A context that waits has been set, or has waited before. -/
theorem waiting_set {waiting : Nat → Nat → Option CacheFilter} {root context rootId contextId : Nat}
    {value : Option CacheFilter} {f : CacheFilter}
    (waits : Function.update waiting root (Function.update (waiting root) context value) rootId contextId = some f) :
    value = some f ∨ waiting rootId contextId = some f := by
  by_cases sameRoot : rootId = root
  · subst sameRoot
    rw [Function.update_self] at waits
    by_cases sameContext : contextId = context
    · subst sameContext
      rw [Function.update_self] at waits
      exact Or.inl waits
    · rw [Function.update_of_ne sameContext] at waits
      exact Or.inr waits
  · rw [Function.update_of_ne sameRoot] at waits
    exact Or.inr waits

theorem waiting_exec (sound : HostSound terms h) (sane : Sane terms c) :
    ∀ rootId contextId f, (h.exec c).2.waiting rootId contextId = some f → f.Fresh terms := by
  intro rootId contextId f waits
  cases c with
  | insertWaitingContext inserted =>
    rcases waiting_set waits with set | before
    · cases set
      exact sane
    · exact sound.waiting rootId contextId f before
  | removeWaitingContext root context =>
    rcases waiting_set waits with set | before
    · cases set
    · exact sound.waiting rootId contextId f before
  | _ => exact sound.waiting rootId contextId f waits

theorem queue_exec (sound : HostSound terms h) (sane : Sane terms c) :
    ∀ item ∈ (h.exec c).2.queues terms.queueId, PlainItem item := by
  have moved := exec_queue terms.queueId c h
  intro item member
  have before : item ∈ h.queues terms.queueId ++ sentBy terms.queueId ⟨c, (h.exec c).1⟩ :=
    moved ▸ List.mem_append_right _ member
  rcases List.mem_append.mp before with held | sent
  · exact sound.queue item held
  · cases c with
    | enqueueSharedQueue queueId other =>
      have sent : item ∈ if queueId = terms.queueId then [other] else [] := sent
      by_cases same : queueId = terms.queueId
      · rw [if_pos same] at sent
        cases List.mem_singleton.mp sent
        exact sane same
      · rw [if_neg same] at sent
        cases sent
    | _ => cases sent

theorem queueIds_exec (c : HostCall) (h : Host) : (h.exec c).2.queueIds = h.queueIds := by
  cases c <;> rfl

/-- The host answers sane calls truthfully, and stays sound. -/
theorem exec (sound : HostSound terms h) (sane : Sane terms c) (inTime : InTime terms.latest ⟨c, (h.exec c).1⟩) :
    Admitted terms ⟨c, (h.exec c).1⟩ ∧ HostSound terms (h.exec c).2 := by
  refine ⟨⟨inTime.1, sound.truthful inTime⟩, sound.stored_exec sane, sound.waiting_exec sane,
    sound.queue_exec sane, ?_⟩
  rw [queueIds_exec]
  exact sound.threads

end HostSound

omit [DecidableEq ι] in
theorem orderly_guarded (terms : Terms) :
    Guarded (orderlyParties ι terms) (Sane terms) (InTime terms.latest) (Admitted terms)
      (fun _ => Party.Sound terms) (HostSound terms) where
  call := fun _ _ _ sound sane inTime => sound.exec sane inTime
  resume := fun _ _ _ _ sound given => steady_callback sound given
  env := by
    rintro h _ sound ⟨clock, dispatch, rfl⟩
    exact ⟨sound.stored, sound.waiting, sound.queue, sound.threads⟩

/-- However the callbacks are interleaved, none of them panics, and only sound
applications are ever stored. -/
theorem callbacks_neverPanic {parties : ι → Party} {h : Host} (contented : ∀ i, (parties i).Sound terms)
    (sound : HostSound terms h) {s : Config ι HostCall HostCall.Reply Host Party}
    (reach : Reach (orderlyParties ι terms) anyStep (orderlyStart parties h) s)
    (inTime : ∀ e ∈ s.trace, InTime terms.latest e.2) :
    (∀ i, s.procs i ≠ .trap) ∧ s.shared.shared.Stored fun _ app => app.Sound terms.latest terms.counted := by
  obtain ⟨sound, safe⟩ := reach.safe (orderly_guarded terms) sound contented inTime
  exact ⟨fun i => (safe i).noTrap, fun key app => sound.stored key (.application app)⟩

def hitTerms : Terms where
  latest := .fromSecs 1000000
  early := by decide
  counted := (· = "hits".toList)
  queueId := 7

def hitParties (context : Bool) : Party :=
  if context then .context (hitFilter 1) else .singleton (.start (some 7) { capacity := 1 })

/-- The queue of the singleton is another one than those of the threads. -/
def orderlyHost : Host :=
  { cachedHost limitedToMinute with queueIds := fun name => some (if name = queueName then 7 else 8) }

/-- While a context debits an application, the singleton takes its message and
flushes its store. -/
def orderlyRaced : Config Bool HostCall HostCall.Reply Host Party :=
  (((orderlyStart hitParties orderlyHost).resumed true
      ((ContextTask.requestHeaders hitLib 3 hitHeaders).program (hitFilter 1) >>= fun f =>
        pure (.context f))).resumed false
      (Occasion.queueReady.callback oneHitCalls wasmSizes (.start (some 7) { capacity := 1 }) >>= fun r =>
        pure (.singleton r.1))).play
    (orderlyParties Bool hitTerms) (List.replicate 13 true ++ [false, false, true, false])

theorem limitedToMinute_sound : limitedToMinute.Sound hitTerms.latest hitTerms.counted where
  long := by
    intro metric report here
    by_cases same : metric = "hits".toList
    · subst same
      rw [limitedToMinute, cachedWith, AList.lookup_insert] at here
      cases here
      exact ⟨by decide, by decide⟩
    · rw [limitedToMinute, cachedWith, AList.lookup_insert_ne same] at here
      cases (AList.lookup_empty metric).symm.trans here
  spares := by
    intro parent children here
    cases (AList.lookup_empty parent).symm.trans here

theorem orderlyHost_sound : HostSound hitTerms orderlyHost where
  stored := by
    intro key value cas here
    by_cases same : key = limitedToMinute.cacheKey.asString
    · subst same
      cases (SharedData.put_entry_self ..).symm.trans here
      exact limitedToMinute_sound
    · cases (SharedData.put_entry_ne _ _ same).symm.trans here
  waiting := by rintro _ _ _ ⟨⟩
  queue := by rintro _ ⟨⟩
  threads := by
    intro rootId
    simp only [orderlyHost, if_neg (threadQueueName_ne rootId)]
    decide

theorem callbacks_neverPanic_raced :
    (∀ i, orderlyRaced.procs i ≠ .trap) ∧
      orderlyRaced.shared.shared.Stored fun _ app => app.Sound hitTerms.latest hitTerms.counted := by
  have contented : ∀ i, (hitParties i).Sound hitTerms := by
    intro i
    cases i with
    | true => exact fun metric counts => absurd counts (AList.notMem_empty metric)
    | false => exact serviceable_start 7 { capacity := 1 }
  have orderly : (ContextTask.requestHeaders hitLib 3 hitHeaders).Orderly hitTerms (hitFilter 1) := by
    refine ⟨rfl, fun data requested => ?_⟩
    cases requested
    intro metric counts
    exact (AList.mem_insert _).mp counts |>.resolve_right (AList.notMem_empty metric)
  have queueReady : Occasion.queueReady.Orderly hitTerms := trivial
  have reach : Reach (orderlyParties Bool hitTerms) anyStep (orderlyStart hitParties orderlyHost) orderlyRaced :=
    Reach.play _ (.next (.next .start (.resume (i := true) rfl (.context orderly)) trivial)
      (.resume (i := false) rfl (.singleton wasmSizes (fun _ => rfl) queueReady)) trivial)
  have inTime : (orderlyRaced.trace.all fun e => decide (InTime hitTerms.latest e.2)) = true := by decide
  exact callbacks_neverPanic contented orderlyHost_sound reach fun e member =>
    of_decide_eq_true (List.all_eq_true.mp inTime e member)

end ThreescaleCache
