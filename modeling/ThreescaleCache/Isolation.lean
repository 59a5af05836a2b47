import ThreescaleCache.CacheHitRules
import ThreescaleCache.CacheKeys
import ThreescaleCache.LoneRuns
import ThreescaleCache.Quota
import ThreescaleCache.SingletonRoot

namespace ThreescaleCache
open Interaction

/-! Requests that share one cache, each named by its service and the identifier
it comes with. `owner` says which application of a service has a user_key, as
3scale knows it. -/

variable (owner : ServiceId → UserKey → AppId)

/-- The application of a request. -/
def appOf (r : CacheKey) : AppId :=
  match r.appId with
  | .appId id _ => id
  | .userKey userKey => owner r.serviceId userKey

/-- The same request, by the app_id that its user_key is mapped to. -/
def mappedKey (r : CacheKey) : CacheKey := ⟨r.serviceId, .appId (appOf owner r) none⟩

/-- The entries that are looked up for a request: by the identifier that it
comes with, and by its app_id. -/
def entriesOf (r : CacheKey) : List CacheEntry :=
  (match r.appId with
    | .userKey userKey => [.mapping r.serviceId userKey]
    | .appId .. => []) ++
  [.application r.serviceId r.appId.asRef, .calloutLock r.serviceId r.appId.asRef,
    .application r.serviceId (appOf owner r), .calloutLock r.serviceId (appOf owner r)]

/-- Requests of different services, or of the same for different applications. -/
def Different (r r' : CacheKey) : Prop := r.serviceId ≠ r'.serviceId ∨ appOf owner r ≠ appOf owner r'

/-- No entry of `r`, the memory counter included, shares its key with another
one that is looked up for `r'`, and they have none in common if they are
different. -/
def Separate (r r' : CacheKey) : Prop :=
  ∀ e ∈ .memoryCounter :: entriesOf owner r, ∀ e' ∈ entriesOf owner r',
    (e ≠ e' → ¬Collide e e') ∧ (Different owner r r' → e ≠ e')

/-! What is done for a request -/

/-- The cache key of a context of the request `r`: as it came, or mapped. -/
def ServesFor (r k : CacheKey) : Prop := k = r ∨ k = mappedKey owner r

/-- A response names the service and the application of the request. -/
def NamesOwn (r : CacheKey) (response : AuthorizationStatus) : Prop :=
  ∀ appKeys, response.appKeys = some appKeys →
    (∀ id, appKeys.appId = some id → id = appOf owner r) ∧
      ∀ serviceId, appKeys.serviceId = some serviceId → serviceId = r.serviceId

def NamesRequest (r : CacheKey) (response : CallResponse) : Prop :=
  ∀ data, response.body = some (.parsed (.status data)) → NamesOwn owner r data

/-- The programs by which the filter and the singleton act for a request. The
last two are the singleton's: the update for a message, and the refresh. -/
inductive Errand where
  | requestHeaders (lib : ThirdParty) (rounds : Nat) (f : CacheFilter) (headers : Str → Option Str)
  | callResponse (f : CacheFilter) (response : CallResponse)
  | wake (context : CacheFilter) (action : WaiterAction)
  | update (data : ThreescaleData) (reqTime : Duration)
  | refresh (self : SingletonService) (tokenId : Nat) (response : CallResponse)

def Errand.program : Errand → HostProg Unit
  | .requestHeaders lib rounds f headers => f.onHttpRequestHeaders lib rounds headers >>= fun _ => .done ()
  | .callResponse f response => f.onHttpCallResponse response >>= fun _ => .done ()
  | .wake context action => CacheFilterRoot.wakeWaiter context action
  | .update data reqTime => SingletonService.updateApplicationCache data reqTime >>= fun _ => .done ()
  | .refresh self tokenId response => self.onHttpCallResponse tokenId response >>= fun _ => .done ()

/-- The errands for the request `r`. -/
def Errand.For (r : CacheKey) : Errand → Prop
  | .requestHeaders lib _ _ headers =>
    ∀ data, CacheFilter.getRequestData lib headers = .ok data → (⟨data.serviceId, data.appId⟩ : CacheKey) = r
  | .callResponse f response => ServesFor owner r f.state.cacheKey ∧ NamesRequest owner r response
  | .wake context _ => ServesFor owner r context.state.cacheKey
  | .update data _ => ServesFor owner r ⟨data.serviceId, data.appId⟩
  | .refresh self tokenId response =>
    (∀ k, self.authRequests.lookup tokenId = some k → ServesFor owner r k) ∧ NamesRequest owner r response

/-- Parties that each run the errands of one request, one after the other, on
one host. -/
def errandParties {ι : Type} (serves : ι → CacheKey) : Parties ι HostCall HostCall.Reply Host Unit where
  exec := fun _ => Host.exec
  env := Host.Env
  resume := fun i _ _ p => ∃ errand : Errand, errand.For owner (serves i) ∧ p = errand.program

/-- A value of the family of an entry: a mapping to the owner of the user_key, an
application under its own key. -/
def CacheEntry.Holds : CacheEntry → SharedValue → Prop
  | .mapping serviceId userKey, .appId id => id = owner serviceId userKey
  | .application serviceId appId, .application app =>
    app.cacheKey.asString = (CacheEntry.application serviceId appId).key
  | .calloutLock .., .calloutLock _ | .memoryCounter, .memoryCounter _ => True
  | _, _ => False

/-- The entries of the requests hold what belongs into them. -/
def InPlace {ι : Type} (serves : ι → CacheKey) (d : SharedData) : Prop :=
  ∀ i, ∀ e ∈ entriesOf owner (serves i), ∀ v, d.value e.key = some v → e.Holds owner v

/-! The calls that are confined to the entries of a request -/

def Confined (r : CacheKey) : HostCall → Prop
  | .getSharedData key => ∃ e ∈ .memoryCounter :: entriesOf owner r, e.key = key
  | .setSharedData key value _ =>
    ∃ e ∈ .memoryCounter :: entriesOf owner r, e.key = key ∧ ∀ v, value = some v → e.Holds owner v
  | _ => True

/-- A reply as it is where the entries hold what belongs into them. -/
def Credible (r : CacheKey) : (c : HostCall) → c.Reply → Prop
  | .getSharedData key, .ok (some v, _) => ∀ e ∈ entriesOf owner r, e.key = key → e.Holds owner v
  | _, _ => True

/-- The keys of the applications that are looked up for `r`. -/
def OwnApplication (r : CacheKey) (key : Str) : Prop :=
  ∃ id, CacheEntry.application r.serviceId id ∈ entriesOf owner r ∧
    (CacheEntry.application r.serviceId id).key = key

def OwnLock (r : CacheKey) (key : Str) : Prop :=
  ∃ id, CacheEntry.calloutLock r.serviceId id ∈ entriesOf owner r ∧
    (CacheEntry.calloutLock r.serviceId id).key = key

open Classical in
/-- A party that acts for `r`: it makes confined calls only, and relies on
credible replies. -/
noncomputable def confined (r : CacheKey) : HostProtocol Unit where
  may := fun _ c => Confined owner r c
  next := fun _ c reply => if Credible owner r c reply then some () else none

variable {owner} {r k : CacheKey}

theorem confined_next {c : HostCall} {reply : c.Reply} {u u' : Unit}
    (known : (confined owner r).next u c reply = some u') : Credible owner r c reply := by
  dsimp only [confined] at known
  split at known
  · assumption
  · cases known

theorem own_of_serves (serves : ServesFor owner r k) :
    OwnApplication owner r k.asString ∧ OwnLock owner r (calloutLockKey k) := by
  rcases serves with rfl | rfl
  · exact ⟨⟨k.appId.asRef, by simp [entriesOf], rfl⟩, ⟨k.appId.asRef, by simp [entriesOf], rfl⟩⟩
  · exact ⟨⟨appOf owner r, by simp [entriesOf], rfl⟩, ⟨appOf owner r, by simp [entriesOf], rfl⟩⟩

theorem OwnApplication.read {key : Str} (own : OwnApplication owner r key) :
    Confined owner r (.getSharedData key) := by
  obtain ⟨id, member, same⟩ := own
  exact ⟨_, List.mem_cons_of_mem _ member, same⟩

theorem OwnApplication.write {key : Str} (own : OwnApplication owner r key) {app : Application}
    (filed : app.cacheKey.asString = key) (cas : Option Nat) :
    Confined owner r (.setSharedData key (some (.application app)) cas) := by
  obtain ⟨id, member, same⟩ := own
  refine ⟨_, List.mem_cons_of_mem _ member, same, ?_⟩
  rintro v ⟨⟩
  exact filed.trans same.symm

theorem OwnApplication.erase {key : Str} (own : OwnApplication owner r key) (cas : Option Nat) :
    Confined owner r (.setSharedData key none cas) := by
  obtain ⟨id, member, same⟩ := own
  exact ⟨_, List.mem_cons_of_mem _ member, same, by rintro v ⟨⟩⟩

theorem OwnLock.read {key : Str} (own : OwnLock owner r key) : Confined owner r (.getSharedData key) := by
  obtain ⟨id, member, same⟩ := own
  exact ⟨_, List.mem_cons_of_mem _ member, same⟩

theorem OwnLock.write {key : Str} (own : OwnLock owner r key) {value : Option SharedValue}
    (lock : ∀ v, value = some v → ∃ held, v = .calloutLock held) (cas : Option Nat) :
    Confined owner r (.setSharedData key value cas) := by
  obtain ⟨id, member, same⟩ := own
  refine ⟨_, List.mem_cons_of_mem _ member, same, fun v is => ?_⟩
  obtain ⟨held, rfl⟩ := lock v is
  trivial

theorem confined_keeps {A : HostCall → Prop} (fits : ∀ c, A c → Confined owner r c) :
    (confined owner r).Keeps (fun _ _ => True) A where
  refl := fun _ => trivial
  trans := fun _ _ => trivial
  may := fun _ c a => fits c a
  next := fun _ _ _ _ _ _ => trivial

/-- Calls that are confined whatever is replied. -/
theorem confined_of_only {α : Type} {p : HostProg α} (only : p.Only (Confined owner r)) (u : Unit) :
    Follows (confined owner r) (fun _ _ => True) p u :=
  (confined_keeps fun _ => id).follows only u

theorem confined_counterCall {c : HostCall} (counter : CounterCall c) : Confined owner r c := by
  cases counter with
  | read => exact ⟨.memoryCounter, List.mem_cons_self, rfl⟩
  | write size cas =>
    refine ⟨.memoryCounter, List.mem_cons_self, rfl, ?_⟩
    rintro v ⟨⟩
    trivial

/-! Reading -/

theorem confined_getApplicationFromCache (own : OwnApplication owner r k.asString) (u : Unit) :
    Follows (confined owner r) (fun _ result => ∀ app cas, result = .ok (app, cas) →
      app.cacheKey.asString = k.asString) (getApplicationFromCache k) u := by
  refine ⟨own.read, fun reply u' known => ?_⟩
  have credible := confined_next known
  match reply with
  | .ok (some (.application app), some cas) =>
    rintro _ _ ⟨⟩
    obtain ⟨id, member, same⟩ := own
    exact (credible _ member same).trans same
  | .error _ | .ok (some _, none) | .ok (none, _) => rintro _ _ ⟨⟩
  | .ok (some (.appId _), some _) | .ok (some (.calloutLock _), some _)
  | .ok (some (.memoryCounter _), some _) => rintro _ _ ⟨⟩

theorem mapping_mem {userKey : UserKey} (by_ : r.appId = .userKey userKey) :
    CacheEntry.mapping r.serviceId userKey ∈ entriesOf owner r := by
  simp [entriesOf, by_]

theorem confined_getAppIdFromCache {userKey : UserKey} (by_ : r.appId = .userKey userKey) (u : Unit) :
    Follows (confined owner r) (fun _ result => ∀ id, result = .ok id → id = appOf owner r)
      (getAppIdFromCache userKey) u := by
  rw [getAppIdFromCache_eq]
  refine ⟨⟨_, List.mem_cons_of_mem _ (mapping_mem by_), rfl⟩, fun reply u' known id read => ?_⟩
  obtain ⟨value, cas, rfl, text⟩ := appIdRead_eq_ok.mp read
  have held : (CacheEntry.mapping r.serviceId userKey).Holds owner value :=
    confined_next known _ (mapping_mem by_) rfl
  cases value with
  | appId mapped =>
    cases Option.some.inj text
    rw [appOf, by_]
    exact held
  | application | calloutLock | memoryCounter => exact held.elim

/-! The cache hit flow -/

theorem only_confined_setApplication {app : Application} (own : OwnApplication owner r app.cacheKey.asString) (cas : Nat) :
    (setApplicationToCache app.cacheKey.asString app cas).Only (Confined owner r) := by
  have size : (getCachePairSize app.cacheKey.asString).Only (Confined owner r) := by
    refine ⟨own.read, fun reply => ?_⟩
    match reply with
    | .error _ | .ok (some _, _) | .ok (none, _) => trivial
  refine Prog.only_bind size fun size => ?_
  cases size with
  | error e => trivial
  | ok prevMemoryUsage =>
    refine ⟨own.write rfl _, fun reply => ?_⟩
    cases reply with
    | error e => trivial
    | ok =>
      show Prog.Only (Confined owner r) (retryUpdateSharedMemorySize _ 3 >>= _)
      exact Prog.only_bind ((only_retryUpdate_counter _ 3).mono fun _ => confined_counterCall) fun _ => trivial

theorem only_confined_limitCheck {app : Application} (own : OwnApplication owner r app.cacheKey.asString)
    (data : ThreescaleData) (cas : Nat) (now : Duration) :
    (limitCheckAndUpdateApplication data app cas now).Only (Confined owner r) := by
  unfold limitCheckAndUpdateApplication
  cases verdict : limitCheck now data.metrics.entries app {} with
  | trap => trivial
  | overflow | limited => exact ⟨trivial, fun _ => trivial⟩
  | pass app' info =>
    have own' : OwnApplication owner r app'.cacheKey.asString := by rwa [limitCheck_pass_cacheKey verdict]
    refine Prog.only_bind (only_confined_setApplication own' cas) fun set => ?_
    cases set with
    | error e => exact ⟨trivial, fun _ => trivial⟩
    | ok => exact ⟨trivial, fun _ => trivial⟩

theorem only_confined_onAuthorizedTry (f : CacheFilter) (queueId : Nat) (now : Duration) (cas : Nat)
    (info : RateLimitInfo) : (f.onAuthorizedTry queueId now cas info).Only (Confined owner r) := by
  have stat : (onlyIf (cas = 0) (incrementStat .cachedApps)).Only (Confined owner r) :=
    only_onlyIf ⟨trivial, fun _ => trivial⟩
  have report : ((f.withRateLimitInfo info).reportToSingleton queueId now).Only (Confined owner r) :=
    only_reportToSingleton (fun _ _ => trivial) _ queueId now
  exact Prog.only_bind stat fun _ => Prog.only_bind report fun _ => ⟨trivial, fun _ => trivial⟩

theorem confined_cacheHitTries {f : CacheFilter} (serves : ServesFor owner r f.state.cacheKey) (queueId : Nat)
    (now : Duration) (tries : Nat) {app : Application} (own : OwnApplication owner r app.cacheKey.asString) (cas : Nat)
    (u : Unit) : Follows (confined owner r) (fun _ _ => True)
      (CacheFilter.cacheHitTries queueId now tries f app cas) u := by
  refine follows_cacheHitTries f (fun _ _ app _ => OwnApplication owner r app.cacheKey.asString) ?_ ?_ own
  · intro u app cas _
    exact ⟨trivial, fun _ _ _ => trivial⟩
  · intro tries u app cas own
    refine (confined_of_only (only_confined_limitCheck own _ cas now) u).mono fun u result _ => ?_
    match result with
    | .ok (.authorized info) => exact confined_of_only (only_confined_onAuthorizedTry f queueId now cas info) u
    | .ok (.rateLimited info) => exact ⟨trivial, fun _ _ _ => trivial⟩
    | .error .durationOverflow => trivial
    | .error (.cacheUpdateFail _) =>
      have again := (own_of_serves serves).1
      refine (confined_getApplicationFromCache again u).mono fun u fetched here => ?_
      match fetched with
      | .ok (app', cas') =>
        show OwnApplication owner r app'.cacheKey.asString
        rw [here app' cas' rfl]
        exact again
      | .error e => trivial

theorem confined_handleCacheHit {f : CacheFilter} (serves : ServesFor owner r f.state.cacheKey)
    {app : Application} (own : OwnApplication owner r app.cacheKey.asString) (cas : Nat) (u : Unit) :
    Follows (confined owner r) (fun _ _ => True) (f.handleCacheHit app cas) u := by
  rw [handleCacheHit_eq]
  refine ⟨trivial, fun _ u _ => ⟨trivial, fun queue u _ => ?_⟩⟩
  cases queue with
  | none => trivial
  | some queueId =>
    refine ⟨trivial, fun reading u _ => ?_⟩
    cases reading with
    | none => trivial
    | some now =>
      dsimp only
      cases addHierarchyToMetrics app.metricHierarchy f.state.reqData.metrics with
      | none => trivial
      | some metrics => exact confined_cacheHitTries serves queueId now f.config.maxTries own cas u

/-! The callbacks -/

theorem confined_failureCall {c : HostCall} (failure : FailureCall c) : Confined owner r c := by
  cases failure <;> trivial

theorem confined_setCalloutLock {f : CacheFilter} (serves : ServesFor owner r f.state.cacheKey) (rounds : Nat)
    (u : Unit) : Follows (confined owner r) (fun _ _ => True) (setCalloutLock rounds f) u := by
  have own := (own_of_serves serves).2
  refine confined_of_only ((only_setCalloutLock rounds f).mono fun c call => ?_) u
  cases call with
  | read => exact own.read
  | write v cas => exact own.write (by rintro _ ⟨⟩; exact ⟨v, rfl⟩) cas
  | wait | queue => trivial

theorem confined_failing (f : CacheFilter) (u : Unit) :
    Follows (confined owner r) (fun _ _ => True) f.inRequestFailure u :=
  confined_of_only ((only_inRequestFailure f).mono fun _ => confined_failureCall) u

theorem confined_doAuthCall (lib : ThirdParty) (f : CacheFilter) (u : Unit) :
    Follows (confined owner r) (fun _ _ => True) (f.doAuthCall lib) u := by
  unfold CacheFilter.doAuthCall
  cases lib.buildApiCall (CacheFilter.authorizeCall f.state.reqData) with
  | none => exact confined_failing f u
  | some request =>
    refine ⟨trivial, fun reply u _ => ?_⟩
    cases reply with
    | ok token => trivial
    | error e => exact confined_failing f u

theorem confined_cacheHitOrFail {f : CacheFilter} (serves : ServesFor owner r f.state.cacheKey)
    {app : Application} (own : OwnApplication owner r app.cacheKey.asString) (cas : Nat) (u : Unit) :
    Follows (confined owner r) (fun _ _ => True) (f.cacheHitOrFail app cas) u := by
  refine follows_bind.mpr ((confined_handleCacheHit serves own cas u).mono fun u result _ => ?_)
  match result with
  | (f', .ok ()) => trivial
  | (f', .error e) => exact confined_failing f' u

theorem confined_lookUp {ε α : Type} (lib : ThirdParty) (rounds : Nat) {f : CacheFilter}
    (serves : ServesFor owner r f.state.cacheKey) {read : HostProg (Except ε α)}
    {found : α → HostProg (CacheFilter × Action)}
    (reads : ∀ u, Follows (confined owner r) (fun _ result => ∀ a, result = .ok a →
      ∀ u, Follows (confined owner r) (fun _ _ => True) (found a) u) read u) (u : Unit) :
    Follows (confined owner r) (fun _ _ => True) (f.lookUp lib rounds read found) u := by
  refine follows_lookUp (fun _ => True) (fun u _ => ?_) (fun u _ => ?_) (fun u _ => ?_)
    (fun u _ => confined_failing f u) trivial
  · exact (reads u).mono fun u' _ hit => ⟨trivial, fun a same => hit a same u'⟩
  · exact ⟨trivial, fun _ _ _ => trivial⟩
  · refine (confined_setCalloutLock serves rounds u).mono fun u status _ => ?_
    match status with
    | .ok .lockAcquired => exact confined_doAuthCall lib f u
    | .ok .addedToWaitlist | .ok .responseCameFirst => trivial
    | .error _ => exact confined_failing f u

theorem confined_lookupApplication (lib : ThirdParty) (rounds : Nat) {f : CacheFilter}
    (serves : ServesFor owner r f.state.cacheKey) (u : Unit) :
    Follows (confined owner r) (fun _ _ => True) (f.lookupApplication lib rounds) u := by
  have own := (own_of_serves serves).1
  rw [lookupApplication_eq]
  refine confined_lookUp lib rounds serves (fun u => ?_) u
  refine (confined_getApplicationFromCache own u).mono fun _ _ here found same u => ?_
  exact confined_cacheHitOrFail serves (by rwa [here found.1 found.2 same]) found.2 u

theorem confined_onUserKey (lib : ThirdParty) (rounds : Nat) {f : CacheFilter} {userKey : UserKey}
    (same : f.state.cacheKey = r) (by_ : r.appId = .userKey userKey) (u : Unit) :
    Follows (confined owner r) (fun _ _ => True) (f.onUserKey lib rounds userKey) u := by
  rw [onUserKey_eq]
  refine confined_lookUp lib rounds (Or.inl same) (fun u => ?_) u
  refine (confined_getAppIdFromCache by_ u).mono fun _ _ here id is u => ?_
  have mapped : ServesFor owner r (f.mapped id).state.cacheKey := by
    refine Or.inr ?_
    simp only [CacheFilter.mapped, CacheKey.setAppId, same, mappedKey, here id is]
  exact confined_lookupApplication lib rounds mapped u

theorem confined_onHttpRequestHeaders (lib : ThirdParty) (rounds : Nat) (f : CacheFilter)
    (headers : Str → Option Str) (request : ∀ data, CacheFilter.getRequestData lib headers = .ok data →
      (⟨data.serviceId, data.appId⟩ : CacheKey) = r) (u : Unit) :
    Follows (confined owner r) (fun _ _ => True) (f.onHttpRequestHeaders lib rounds headers) u := by
  unfold CacheFilter.onHttpRequestHeaders
  cases parsed : CacheFilter.getRequestData lib headers with
  | error e => exact ⟨trivial, fun _ u _ => ⟨trivial, fun _ u _ => trivial⟩⟩
  | ok data =>
    have same := request data parsed
    dsimp only
    cases by_ : data.appId with
    | userKey userKey =>
      refine confined_onUserKey lib rounds ?_ ?_ u
      · rw [← same, by_]
      · rw [← same, by_]
    | appId id key =>
      refine confined_lookupApplication lib rounds (Or.inl ?_) u
      rw [← same, by_]

/-! The authorize response, the waiters and the singleton -/

theorem confined_recordAppId {f : CacheFilter} (serves : ServesFor owner r f.state.cacheKey) {id : AppId}
    (named : id = appOf owner r) : (f.recordAppId id).Only (Confined owner r) := by
  unfold CacheFilter.recordAppId
  cases by_ : f.state.cacheKey.appId with
  | appId => trivial
  | userKey userKey =>
    have same : f.state.cacheKey = r := by
      refine serves.resolve_right fun mapped => ?_
      rw [mapped, mappedKey] at by_
      cases by_
    rw [same] at by_
    refine ⟨⟨_, List.mem_cons_of_mem _ (mapping_mem by_), rfl, ?_⟩, fun reply => ?_⟩
    · rintro v ⟨⟩
      show id = owner r.serviceId userKey
      rw [named, appOf, by_]
    · cases reply <;> trivial

theorem authResponseIds_named {response : AuthorizationStatus} {appKeys : ListAppKeys} {id : AppId}
    {serviceId : ServiceId} (ids : CacheFilter.authResponseIds response = .ok (appKeys, id, serviceId)) :
    response.appKeys = some appKeys ∧ appKeys.appId = some id ∧ appKeys.serviceId = some serviceId := by
  unfold CacheFilter.authResponseIds at ids
  cases keys : response.appKeys with
  | none =>
    rw [keys] at ids
    cases ids
  | some carried =>
    rw [keys] at ids
    cases id_ : carried.appId with
    | none =>
      simp only [id_] at ids
      cases ids
    | some carriedId =>
      cases service : carried.serviceId with
      | none =>
        simp only [id_, service] at ids
        cases ids
      | some carriedService =>
        simp only [id_, service] at ids
        cases ids
        exact ⟨rfl, id_, service⟩

theorem confined_handleAuthResponse {f : CacheFilter} {response : AuthorizationStatus}
    (serves : ServesFor owner r f.state.cacheKey) (named : NamesOwn owner r response) (u : Unit) :
    Follows (confined owner r) (fun _ _ => True) (f.handleAuthResponse response) u := by
  unfold CacheFilter.handleAuthResponse
  cases ids : CacheFilter.authResponseIds response with
  | error e => trivial
  | ok carried =>
    obtain ⟨appKeys, id, serviceId⟩ := carried
    obtain ⟨keys, id_, service⟩ := authResponseIds_named ids
    have ownId : id = appOf owner r := (named appKeys keys).1 id id_
    have ownService : serviceId = r.serviceId := (named appKeys keys).2 serviceId service
    refine follows_bind.mpr ((confined_of_only (confined_recordAppId serves ownId) u).mono fun u recorded _ => ?_)
    match recorded with
    | (_, .error e) => trivial
    | (f', .ok ()) =>
      dsimp only
      cases formed : CacheFilter.authResponseApplication response appKeys id serviceId with
      | none => trivial
      | some app =>
        have mapped : ServesFor owner r ⟨serviceId, .appId id none⟩ := Or.inr (by rw [ownId, ownService]; rfl)
        have key : app.cacheKey = ⟨serviceId, .appId id none⟩ := by
          obtain ⟨state, _, same⟩ := Option.bind_eq_some_iff.mp formed
          cases Option.some.inj same
          rfl
        have own : OwnApplication owner r app.cacheKey.asString := by
          rw [key]
          exact (own_of_serves mapped).1
        refine follows_bind.mpr (Follows.mono (confined_handleCacheHit ?_ own 0 u) fun u result _ => ?_)
        · exact mapped
        · match result with
          | (_, .ok ()) | (_, .error e) => trivial

theorem confined_processFailing (f : CacheFilter) (u : Unit) :
    Follows (confined owner r) (fun _ _ => True) f.requestProcessFailure u :=
  confined_of_only ((only_requestProcessFailure f).mono fun _ => confined_failureCall) u

theorem confined_onCallResult {f : CacheFilter} (serves : ServesFor owner r f.state.cacheKey) (status : Str)
    {body : Option ResponseBody}
    (named : ∀ data, body = some (.parsed (.status data)) → NamesOwn owner r data) (u : Unit) :
    Follows (confined owner r) (fun _ _ => True) (f.onCallResult status body) u := by
  have fails : ∀ (f' : CacheFilter) u, Follows (confined owner r) (fun _ _ => True)
      (f'.requestProcessFailure >>= fun f => pure (f, some (WaiterAction.handleFailure 0))) u :=
    fun f' u => follows_bind.mpr ((confined_processFailing f' u).mono fun _ _ _ => trivial)
  unfold CacheFilter.onCallResult
  split
  · match body with
    | none | some .unparsable => exact fails f u
    | some .notUtf8 => trivial
    | some (.parsed (.error code)) =>
      exact follows_bind.mpr ((confined_processFailing f u).mono fun _ _ _ => trivial)
    | some (.parsed (.status response)) =>
      dsimp only [CacheFilter.onAuthorization]
      split
      · refine follows_bind.mpr ((confined_handleAuthResponse serves (named response rfl) u).mono ?_)
        intro u result _
        match result with
        | (_, .ok ()) => trivial
        | (f', .error e) => exact fails f' u
      · refine ⟨trivial, fun _ u _ => ?_⟩
        dsimp only
        cases response.reason with
        | none => trivial
        | some reason => exact ⟨trivial, fun _ _ _ => trivial⟩
  · refine ⟨trivial, fun _ u _ => ?_⟩
    exact fails f u

theorem confined_freeCalloutLock (serves : ServesFor owner r k) (action : WaiterAction) (u : Unit) :
    Follows (confined owner r) (fun _ _ => True) (freeCalloutLockAndNotifyWaiters k action) u := by
  have own := (own_of_serves serves).2
  refine confined_of_only ((only_freeCalloutLock k action).mono fun c call => ?_) u
  cases call with
  | read => exact own.read
  | notify => trivial
  | erase => exact own.write (by rintro _ ⟨⟩) none

theorem confined_onHttpCallResponse {f : CacheFilter} {response : CallResponse}
    (serves : ServesFor owner r f.state.cacheKey) (named : NamesRequest owner r response) (u : Unit) :
    Follows (confined owner r) (fun _ _ => True) (f.onHttpCallResponse response) u := by
  unfold CacheFilter.onHttpCallResponse
  cases response.status with
  | none => trivial
  | some status =>
    refine follows_bind.mpr ((confined_onCallResult serves status named u).mono fun u decided _ => ?_)
    match decided with
    | (_, none) => trivial
    | (_, some action) =>
      exact follows_bind.mpr ((confined_freeCalloutLock serves action u).mono fun _ _ _ => trivial)

theorem confined_lookupForWaiter {context : CacheFilter} (serves : ServesFor owner r context.state.cacheKey)
    (u : Unit) : Follows (confined owner r) (fun _ _ => True) (CacheFilterRoot.lookupForWaiter context) u := by
  have own := (own_of_serves serves).1
  refine follows_bind.mpr ((confined_getApplicationFromCache own u).mono fun u found here => ?_)
  match found with
  | .error e => trivial
  | .ok (app, cas) =>
    have own' : OwnApplication owner r app.cacheKey.asString := by rwa [here app cas rfl]
    refine follows_bind.mpr ((confined_handleCacheHit serves own' cas u).mono fun u result _ => ?_)
    match result with
    | (f', .error e) => exact follows_bind.mpr ((confined_processFailing f' u).mono fun _ _ _ => trivial)
    | (_, .ok ()) => exact ⟨trivial, fun _ _ _ => trivial⟩

theorem confined_wakeWaiter {context : CacheFilter} (serves : ServesFor owner r context.state.cacheKey)
    (action : WaiterAction) (u : Unit) :
    Follows (confined owner r) (fun _ _ => True) (CacheFilterRoot.wakeWaiter context action) u := by
  cases action with
  | handleFailure id => exact follows_bind.mpr ((confined_processFailing context u).mono fun _ _ _ => trivial)
  | handleCacheHit id =>
    show Follows _ _ (CacheFilterRoot.resumeCacheHit context) u
    unfold CacheFilterRoot.resumeCacheHit
    cases by_ : context.state.cacheKey.appId with
    | appId => exact confined_lookupForWaiter serves u
    | userKey userKey =>
      have same : context.state.cacheKey = r := by
        refine serves.resolve_right fun mapped => ?_
        rw [mapped, mappedKey] at by_
        cases by_
      rw [same] at by_
      refine follows_bind.mpr ((confined_getAppIdFromCache by_ u).mono fun u found here => ?_)
      match found with
      | .error e => trivial
      | .ok id =>
        cases here id rfl
        refine confined_lookupForWaiter (Or.inr ?_) u
        simp only [CacheKey.setAppId, same, mappedKey]

theorem confined_updateApplicationCache {data : ThreescaleData}
    (serves : ServesFor owner r ⟨data.serviceId, data.appId⟩) (reqTime : Duration) (u : Unit) :
    Follows (confined owner r) (fun _ _ => True) (SingletonService.updateApplicationCache data reqTime) u := by
  have own := (own_of_serves serves).1
  refine follows_bind.mpr ((confined_getApplicationFromCache own u).mono fun u found here => ?_)
  match found with
  | .error e => trivial
  | .ok (app, cas) =>
    have own' : OwnApplication owner r app.cacheKey.asString := by rwa [here app cas rfl]
    refine follows_bind.mpr
      ((confined_of_only (only_confined_limitCheck own' data cas reqTime) u).mono fun u checked _ => ?_)
    match checked with
    | .ok _ | .error .durationOverflow | .error (.cacheUpdateFail _) => trivial

theorem only_confined_refresh {response : AuthorizationStatus} (named : NamesOwn owner r response) :
    (SingletonService.refreshApplication response).Only (Confined owner r) := by
  rcases refreshApplication_spec response with ⟨-, traps | ⟨e, -, fails⟩⟩ | ⟨app, result, formed, -, files⟩
  · rw [traps]
    trivial
  · rw [fails]
    trivial
  · rw [files]
    obtain ⟨appKeys, id, serviceId, reports, keys, id_, service, -, formed⟩ := refreshedOf_eq_some formed
    have own : OwnApplication owner r app.cacheKey.asString := by
      obtain ⟨state, _, same⟩ := Option.bind_eq_some_iff.mp formed
      cases Option.some.inj same
      have mapped : ServesFor owner r ⟨serviceId, .appId id none⟩ := by
        rw [(named appKeys keys).1 id id_, (named appKeys keys).2 serviceId service]
        exact Or.inr rfl
      exact (own_of_serves mapped).1
    exact Prog.only_bind (only_confined_setApplication own 0) fun set => trivial

theorem only_confined_authResponse {bytes : ResponseBody} {status : Str}
    (named : ∀ data, bytes = .parsed (.status data) → NamesOwn owner r data) :
    (SingletonService.handleAuthResponse bytes status).Only (Confined owner r) := by
  unfold SingletonService.handleAuthResponse
  match bytes with
  | .notUtf8 | .unparsable | .parsed (.error _) => trivial
  | .parsed (.status data) =>
    dsimp only
    split
    · exact only_confined_refresh (named data rfl)
    · trivial

theorem only_confined_authFailure {self : SingletonService} {tokenId : Nat}
    (token : ∀ k, self.authRequests.lookup tokenId = some k → ServesFor owner r k) :
    (self.handleAuthFailure tokenId).Only (Confined owner r) := by
  unfold SingletonService.handleAuthFailure
  cases known : self.authRequests.lookup tokenId with
  | none => trivial
  | some k => exact ⟨(own_of_serves (token k known)).1.erase none, fun _ => ⟨trivial, fun _ => trivial⟩⟩

theorem confined_onRefreshResponse {self : SingletonService} {tokenId : Nat} {response : CallResponse}
    (token : ∀ k, self.authRequests.lookup tokenId = some k → ServesFor owner r k)
    (named : NamesRequest owner r response) (u : Unit) :
    Follows (confined owner r) (fun _ _ => True) (self.onHttpCallResponse tokenId response) u := by
  refine confined_of_only ?_ u
  unfold SingletonService.onHttpCallResponse
  cases response.status with
  | none => trivial
  | some status =>
    dsimp only
    split
    · cases body : response.body with
      | none =>
        dsimp only
        split <;> trivial
      | some bytes =>
        have named' : ∀ data, bytes = .parsed (.status data) → NamesOwn owner r data := by
          rintro data rfl
          exact named data body
        refine Prog.only_bind (only_confined_authResponse named') fun result => ?_
        split
        · exact only_confined_authFailure token
        · trivial
    · refine ⟨trivial, fun _ => ?_⟩
      show Prog.Only (Confined owner r) (if _ then _ else if _ then _ else _)
      split
      · trivial
      · split <;> trivial

/-- All errands are confined to the entries of their request. -/
theorem confined_errand {errand : Errand} (for_ : errand.For owner r) (u : Unit) :
    Follows (confined owner r) (fun _ _ => True) errand.program u := by
  cases errand with
  | requestHeaders lib rounds f headers =>
    exact follows_bind.mpr ((confined_onHttpRequestHeaders lib rounds f headers for_ u).mono fun _ _ _ => trivial)
  | callResponse f response =>
    exact follows_bind.mpr ((confined_onHttpCallResponse for_.1 for_.2 u).mono fun _ _ _ => trivial)
  | wake context action => exact confined_wakeWaiter for_ action u
  | update data reqTime =>
    exact follows_bind.mpr ((confined_updateApplicationCache for_ reqTime u).mono fun _ _ _ => trivial)
  | refresh self tokenId response =>
    exact follows_bind.mpr ((confined_onRefreshResponse for_.1 for_.2 u).mono fun _ _ _ => trivial)

/-! What a confined call does to shared data -/

theorem Separate.key_ne {r' : CacheKey} (separate : Separate owner r r') (different : Different owner r r')
    {e e' : CacheEntry} (member : e ∈ .memoryCounter :: entriesOf owner r) (member' : e' ∈ entriesOf owner r') :
    e.key ≠ e'.key := by
  obtain ⟨apart, none_⟩ := separate e member e' member'
  exact fun same => apart (none_ different) ((key_eq_iff (none_ different)).mp same)

/-- Where two entries are looked up under one key, they are one. -/
theorem Separate.eq_of_key {r' : CacheKey} (separate : Separate owner r r') {e e' : CacheEntry}
    (member : e ∈ .memoryCounter :: entriesOf owner r) (member' : e' ∈ entriesOf owner r') (same : e.key = e'.key) :
    e = e' := by
  by_contra other
  exact (separate e member e' member').1 other ((key_eq_iff other).mp same)

/-- It leaves the entries of a different request as they are. -/
theorem Confined.unchanged {r' : CacheKey} {c : HostCall} (confined : Confined owner r c)
    (separate : Separate owner r r') (different : Different owner r r') {e : CacheEntry}
    (member : e ∈ entriesOf owner r') (h : Host) :
    (Host.exec c h).2.shared.get e.key = h.shared.get e.key := by
  refine @Host.exec_shared (fun d => d.get e.key = h.shared.get e.key) c h rfl ?_
  rintro key value cas rfl
  obtain ⟨e', own, rfl, _⟩ := confined
  simp only [SharedData.get, h.shared.put_entry_ne value (separate.key_ne different own member).symm]

variable {ι : Type} {serves : ι → CacheKey}

/-- Replies are credible where the entries hold what belongs into them. -/
theorem InPlace.credible {h : Host} (filed : InPlace owner serves h.shared) (i : ι) (c : HostCall) :
    Credible owner (serves i) c (Host.exec c h).1 := by
  cases c with
  | getSharedData key =>
    show Credible owner (serves i) (.getSharedData key) (.ok (h.shared.get key))
    cases got : h.shared.get key with
    | mk value cas =>
      cases value with
      | none => trivial
      | some v =>
        rintro e member rfl
        exact filed i e member v (by rw [SharedData.value, got])
  | _ => trivial

/-- They go on to, if the requests are separate. -/
theorem InPlace.exec {h : Host} (filed : InPlace owner serves h.shared)
    (separate : ∀ i j, Separate owner (serves i) (serves j)) {i : ι} {c : HostCall}
    (confined : Confined owner (serves i) c) : InPlace owner serves (Host.exec c h).2.shared := by
  refine Host.exec_shared filed ?_
  rintro key value cas rfl
  obtain ⟨e, own, rfl, holds⟩ := confined
  intro j e' member v here
  rw [SharedData.value_put] at here
  split at here
  · rename_i same
    rw [← (separate i j).eq_of_key own member same.symm]
    exact holds v here
  · exact filed j e' member v here

/-- What holds when the party `i` is about to make the call `c`: a read is of
an entry of its own request, or of the memory counter, and no read that is made
for a different request is changed. -/
structure Isolated (owner : ServiceId → UserKey → AppId) (serves : ι → CacheKey) (i : ι) (c : HostCall)
    (h : Host) : Prop where
  reads : ∀ key, c = .getSharedData key → key = sharedMemoryCounterKey ∨
    ∃ e ∈ entriesOf owner (serves i), e.key = key
  unchanged : ∀ j, Different owner (serves i) (serves j) → ∀ e ∈ entriesOf owner (serves j),
    (Host.exec c h).2.shared.get e.key = h.shared.get e.key

variable [DecidableEq ι]

theorem preserved_filed (separate : ∀ i j, Separate owner (serves i) (serves j)) :
    Preserved (errandParties owner serves) anyStep (fun i => confined owner (serves i)) (fun _ _ _ => True)
      fun s _ => InPlace owner serves s.shared.shared where
  call := by
    intro s ℓ i c k filed at_ may _
    refine ⟨(), ?_, filed.exec separate may⟩
    dsimp only [confined]
    exact if_pos (filed.credible i c)
  resume := by
    intro s ℓ i a p filed at_ _ resume _
    obtain ⟨errand, for_, rfl⟩ := resume
    exact ⟨(), confined_errand for_ (), filed⟩
  env := by
    intro s ℓ h' filed moved
    obtain ⟨clock, dispatch, rfl⟩ := moved
    exact filed

/-- In every run for separate requests, every call is isolated. -/
theorem isolated_of_separate {h : Host} (filed : InPlace owner serves h.shared)
    (separate : ∀ i j, Separate owner (serves i) (serves j))
    {s : Config ι HostCall HostCall.Reply Host Unit} (reach : Reach (errandParties owner serves) anyStep (idle ι h) s)
    {i : ι} {c : HostCall} {k : c.Reply → HostProg Unit} (at_ : s.procs i = .call c k) :
    Isolated owner serves i c s.shared := by
  have start : ∃ ℓ : ι → Unit, InPlace owner serves (idle ι h).shared.shared ∧
      ∀ i, Follows (confined owner (serves i)) (fun _ _ => True) ((idle ι h).procs i) (ℓ i) :=
    ⟨fun _ => (), filed, fun _ => follows_done.mpr trivial⟩
  obtain ⟨ℓ, _, follows⟩ := Reach.invariant (preserved_filed separate) start reach
  have here := follows i
  rw [at_] at here
  have confined_ : Confined owner (serves i) c := here.1
  refine ⟨?_, fun j different e member => confined_.unchanged (separate i j) different member s.shared⟩
  rintro key rfl
  obtain ⟨e, member, rfl⟩ := confined_
  rcases List.mem_cons.mp member with rfl | member
  · exact Or.inl rfl
  · exact Or.inr ⟨e, member, rfl⟩

/-- The keys of different entries are different exactly unless they collide;
and where the requests are separate, nothing that is done for one changes what
is read for a different one. -/
theorem sharedData_isolated (owner : ServiceId → UserKey → AppId) (serves : ι → CacheKey) (h : Host) :
    (∀ e e' : CacheEntry, e ≠ e' → (e.key ≠ e'.key ↔ ¬Collide e e')) ∧
      (InPlace owner serves h.shared →
        (∀ i j, Separate owner (serves i) (serves j)) →
        ∀ s : Config ι HostCall HostCall.Reply Host Unit,
          Reach (errandParties owner serves) anyStep (idle ι h) s →
          ∀ i c k, s.procs i = .call c k → Isolated owner serves i c s.shared) :=
  ⟨fun _ _ different => not_congr (key_eq_iff different),
    fun filed separate _ reach _ _ _ at_ => isolated_of_separate filed separate reach at_⟩

omit [DecidableEq ι] in
theorem inPlace_empty : InPlace owner serves SharedData.empty := by
  intro i e member v here
  cases here

/-! Two services, and a context that waits for a response for the first -/

/-- Requests by app_id of two services, or by one user_key of both. -/
def twoServices (userKey : Option UserKey) : Bool → CacheKey
  | true => ⟨['s'], (userKey.map AppIdentifier.userKey).getD (.appId ['a'] none)⟩
  | false => ⟨['t'], (userKey.map AppIdentifier.userKey).getD (.appId ['b'] none)⟩

def twoOwners : ServiceId → UserKey → AppId := fun serviceId _ => if serviceId = ['s'] then ['a'] else ['b']

/-- The first service's response arrives. -/
def firstResponse (userKey : Option UserKey) : Errand :=
  .callResponse { hitContext 5 with state.cacheKey := twoServices userKey true }
    (callResponse "200" (fiveHits true 0))

def firstAnswered (userKey : Option UserKey) : Config Bool HostCall HostCall.Reply Host Unit :=
  (idle Bool quietHost).resumed true (firstResponse userKey).program

theorem firstAnswered_reach (userKey : Option UserKey) :
    Reach (errandParties twoOwners (twoServices userKey)) anyStep (idle Bool quietHost) (firstAnswered userKey) := by
  have for_ : (firstResponse userKey).For twoOwners (twoServices userKey true) := by
    refine ⟨Or.inl rfl, ?_⟩
    rintro data ⟨⟩ appKeys ⟨⟩
    refine ⟨?_, ?_⟩
    · rintro id ⟨⟩
      cases userKey <;> rfl
    · rintro serviceId ⟨⟩
      rfl
  exact .next .start (.resume rfl ⟨_, for_, rfl⟩) trivial

theorem twoServices_separate (i j : Bool) : Separate twoOwners (twoServices none i) (twoServices none j) := by
  have keys : ∀ e ∈ .memoryCounter :: entriesOf twoOwners (twoServices none i),
      ∀ e' ∈ entriesOf twoOwners (twoServices none j), e.key = e'.key → e = e' ∧ i = j := by
    cases i <;> cases j <;> decide
  intro e member e' member'
  refine ⟨fun other collide => other (keys e member e' member' ((key_eq_iff other).mpr collide)).1, ?_⟩
  rintro (other | other) rfl
  · exact other (by rw [(keys e member e member' rfl).2])
  · exact other (by rw [(keys e member e member' rfl).2])

theorem sharedData_isolated_twoServices :
    ∃ c k, (firstAnswered none).procs true = .call c k ∧
      Isolated twoOwners (twoServices none) true c (firstAnswered none).shared :=
  ⟨_, _, rfl, (sharedData_isolated twoOwners (twoServices none) quietHost).2 inPlace_empty twoServices_separate
    _ (firstAnswered_reach none) true _ _ rfl⟩

/-- One user_key in two services: the mapping recorded for the one is read for
the other. -/
theorem not_isolated_userKey :
    (∃ e e' : CacheEntry, e ≠ e' ∧ e.key = e'.key) ∧
      ∃ c k, Reach (errandParties twoOwners (twoServices (some ['u']))) anyStep (idle Bool quietHost)
          (firstAnswered (some ['u'])) ∧
        (firstAnswered (some ['u'])).procs true = .call c k ∧
        ¬Isolated twoOwners (twoServices (some ['u'])) true c (firstAnswered (some ['u'])).shared := by
  refine ⟨⟨.mapping ['s'] ['u'], .mapping ['t'] ['u'], by decide, rfl⟩, _, _, firstAnswered_reach _, rfl, ?_⟩
  intro isolated
  have different : Different twoOwners (twoServices (some ['u']) true) (twoServices (some ['u']) false) :=
    Or.inl (by decide)
  have kept := isolated.unchanged false different (.mapping ['t'] ['u']) (by decide)
  cases kept

end ThreescaleCache
