import ThreescaleCache.LimitCheck
import ThreescaleCache.Response
import ThreescaleCache.UniqueCallout
import ThreescaleCache.Upstream

namespace ThreescaleCache

def queueName : Str := "message_queue".toList
def timeoutStatus : Str := "504".toList

inductive CacheHitError where
  | timeConversionErr
  | metricsCheckFail (error : UpdateMetricsError)
  | mqNotFound
  | appFetchFail (error : CacheError)
deriving DecidableEq

inductive AuthResponseError where
  | cacheHitErr (error : CacheHitError)
  | negativeTimeErr
  | listKeysMiss
  | listAppIdMiss
  | listServiceIdMiss
  | appIdNotMapped (error : CacheError)
deriving DecidableEq

inductive RequestDataError where
  | serviceTokenNotFound
  | serviceIdNotFound
  | usageNotFound
  | deserializeFail
  | authKeyMissing
  | clusterNameNotFound
  | upstreamUrlNotFound
  | upstreamUrlParseFail
  | upstreamBuilderFail
deriving DecidableEq

inductive Action where
  | proceed
  | pause
deriving DecidableEq

namespace CacheFilter

def withMetrics (f : CacheFilter) (metrics : Metrics) : CacheFilter :=
  { f with state.reqData.metrics := metrics }

def withRateLimitInfo (f : CacheFilter) (info : RateLimitInfo) : CacheFilter :=
  { f with state.rateLimitInfo := info }

/-! Failures -/

def accessForbidden : Str := "Access forbidden.\n".toList

/-- Handles failure when request headers are received. -/
def inRequestFailure (f : CacheFilter) : HostProg (CacheFilter × Action) :=
  let f := f.withRateLimitInfo {}
  if f.config.failureModeDeny then do
    sendHttpResponse 403 (some accessForbidden)
    pure (f, .pause)
  else pure (f, .proceed)

/-- Handles failure during processing. -/
def requestProcessFailure (f : CacheFilter) : HostProg CacheFilter := do
  let f := f.withRateLimitInfo {}
  onlyIf f.config.failureModeDeny (sendHttpResponse 403 (some accessForbidden))
  resumeHttpRequest
  pure f

/-! The callout -/

def credential : AppIdentifier → Credential
  | .userKey key => .userKey key
  | .appId id none => .appId id
  | .appId id (some key) => .appIdAndKey id key

def authorizeCall (data : ThreescaleData) : AuthorizeCall where
  serviceToken := data.serviceToken
  serviceId := data.serviceId
  application := credential data.appId
  usage := data.metrics.entries.map fun entry => (entry.1, Nat.toDigits 10 entry.2.toNat)

def doAuthCall (lib : ThirdParty) (f : CacheFilter) : HostProg (CacheFilter × Action) :=
  match lib.buildApiCall (authorizeCall f.state.reqData) with
  | none => f.inRequestFailure
  | some request => do
    match ← f.state.reqData.upstream.call request.uri request.method request.headers request.body with
    | .ok _ => pure (f, .pause)
    | .error _ => f.inRequestFailure

/-! The cache hit -/

def reportToSingleton (f : CacheFilter) (queueId : Nat) (reqTime : Duration) : HostProg Bool := do
  let message : Message :=
    { updateCacheFromSingleton := f.state.updateCacheFromSingleton
      data := f.state.reqData
      reqTime := reqTime }
  match ← enqueueSharedQueue queueId (.message message) with
  | .ok () => pure true
  | .error _ => pure false

/-- A try that was authorized and has debited the cached application. -/
def onAuthorizedTry (f : CacheFilter) (queueId : Nat) (currentTime : Duration) (appCas : Nat)
    (info : RateLimitInfo) : HostProg (CacheFilter × Except CacheHitError Unit) := do
  let f := f.withRateLimitInfo info
  onlyIf (appCas = 0) (incrementStat .cachedApps)
  let _ ← f.reportToSingleton queueId currentTime
  resumeHttpRequest
  pure (f, .ok ())

def onRateLimitedTry (f : CacheFilter) (info : RateLimitInfo) :
    HostProg (CacheFilter × Except CacheHitError Unit) := do
  sendHttpResponse 429 (some "Request rate-limited.\n".toList)
  pure (f.withRateLimitInfo info, .ok ())

/-- After the last try the request is released without a debit. -/
def afterLastTry (f : CacheFilter) : HostProg (CacheFilter × Except CacheHitError Unit) := do
  resumeHttpRequest
  pure ({ f with state.updateCacheFromSingleton := true }, .ok ())

/-- The loop `for num_try in 0..max_tries`, with the number of tries left.
Its test `num_try < max_tries` holds on every round. -/
def cacheHitTries (queueId : Nat) (currentTime : Duration) :
    Nat → CacheFilter → Application → Nat → HostProg (CacheFilter × Except CacheHitError Unit)
  | 0, f, _, _ => f.afterLastTry
  | tries + 1, f, app, appCas => do
    match ← limitCheckAndUpdateApplication f.state.reqData app appCas currentTime with
    | .ok (.authorized info) => f.onAuthorizedTry queueId currentTime appCas info
    | .ok (.rateLimited info) => f.onRateLimitedTry info
    | .error (.cacheUpdateFail _) =>
      match ← getApplicationFromCache f.state.cacheKey with
      | .ok (app, cas) => cacheHitTries queueId currentTime tries f app cas
      | .error e => pure (f, .error (.appFetchFail e))
    | .error e => pure (f, .error (.metricsCheckFail e))

/-- `appCas` can be zero if fetched for the first time from 3scale. -/
def handleCacheHit (f : CacheFilter) (app : Application) (appCas : Nat) :
    HostProg (CacheFilter × Except CacheHitError Unit) := do
  incrementStat .cacheHits
  match ← resolveSharedQueue queueName with
  | none => pure (f, .error .mqNotFound)
  | some queueId =>
    match ← getCurrentTime with
    | none => pure (f, .error .timeConversionErr)
    | some currentTime =>
      match addHierarchyToMetrics app.metricHierarchy f.state.reqData.metrics with
      | none => .trap
      | some metrics =>
        cacheHitTries queueId currentTime f.config.maxTries (f.withMetrics metrics) app appCas

/-! The request headers -/

/-- The arm of the header callback for an application that was found. -/
def cacheHitOrFail (f : CacheFilter) (app : Application) (appCas : Nat) :
    HostProg (CacheFilter × Action) := do
  match ← f.handleCacheHit app appCas with
  | (f, .ok ()) => pure (f, .proceed)
  | (f, .error _) => f.inRequestFailure

/-- The second half of the header callback, by the application's own key. -/
def lookupApplication (lib : ThirdParty) (rounds : Nat) (f : CacheFilter) :
    HostProg (CacheFilter × Action) := do
  match ← getApplicationFromCache f.state.cacheKey with
  | .ok (app, cas) => f.cacheHitOrFail app cas
  | .error _ => do
    incrementStat .cacheMisses
    match ← setCalloutLock rounds f with
    | .ok .lockAcquired => f.doAuthCall lib
    | .ok .addedToWaitlist => pure (f, .pause)
    | .ok .responseCameFirst =>
      match ← getApplicationFromCache f.state.cacheKey with
      | .ok (app, cas) => f.cacheHitOrFail app cas
      | .error _ => f.inRequestFailure
    | .error _ => f.inRequestFailure

/-- The request continues under the app_id that its user_key is mapped to. -/
def mapped (f : CacheFilter) (appId : AppId) : CacheFilter :=
  { f with
    state.reqData.appId := .appId appId none
    state.cacheKey := f.state.cacheKey.setAppId (.appId appId none) }

def onUserKey (lib : ThirdParty) (rounds : Nat) (f : CacheFilter) (userKey : UserKey) :
    HostProg (CacheFilter × Action) := do
  match ← getAppIdFromCache userKey with
  | .ok appId => (f.mapped appId).lookupApplication lib rounds
  | .error _ => do
    incrementStat .cacheMisses
    match ← setCalloutLock rounds f with
    | .ok .lockAcquired => f.doAuthCall lib
    | .ok .addedToWaitlist => pure (f, .pause)
    | .ok .responseCameFirst =>
      match ← getAppIdFromCache userKey with
      | .ok appId => (f.mapped appId).lookupApplication lib rounds
      | .error _ => f.inRequestFailure
    | .error _ => f.inRequestFailure

/-- Parses the request headers, in the order of the source. -/
def getRequestData (lib : ThirdParty) (headers : Str → Option Str) :
    Except RequestDataError ThreescaleData := do
  let header (name : String) := headers name.toList
  let some serviceToken := header "x-3scale-service-token" | .error .serviceTokenNotFound
  let some serviceId := header "x-3scale-service-id" | .error .serviceIdNotFound
  let some usageStr := header "x-3scale-usages" | .error .usageNotFound
  let some clusterName := header "x-3scale-cluster-name" | .error .clusterNameNotFound
  let some upstreamUrl := header "x-3scale-upstream-url" | .error .upstreamUrlNotFound
  let some parsedUrl := lib.parseUrl upstreamUrl | .error .upstreamUrlParseFail
  let timeout := (header "x-3scale-timeout").bind parseU64
  if !lib.hasAuthority parsedUrl then .error .upstreamBuilderFail
  let some usages := lib.parseUsages usageStr | .error .deserializeFail
  let appId ← match header "x-3scale-user-key", header "x-3scale-app-id" with
    | some userKey, _ => .ok (.userKey userKey)
    | none, some appId => .ok (.appidFromStr appId)
    | none, none => .error .authKeyMissing
  .ok { appId, serviceId, serviceToken, metrics := usages,
        upstream := .build parsedUrl clusterName timeout }

def onHttpRequestHeaders (lib : ThirdParty) (rounds : Nat) (f : CacheFilter)
    (headers : Str → Option Str) : HostProg (CacheFilter × Action) :=
  match getRequestData lib headers with
  | .error _ => do
    incrementStat .authMetadataErrors
    sendHttpResponse 401 none
    pure (f, .pause)
  | .ok data =>
    let f := { f with
      state.cacheKey := { serviceId := data.serviceId, appId := data.appId }
      state.reqData := data }
    match data.appId with
    | .userKey userKey => f.onUserKey lib rounds userKey
    | .appId .. => f.lookupApplication lib rounds

/-! The authorize response -/

/-- The ids that a response has to carry in its list of app keys. -/
def authResponseIds (response : AuthorizationStatus) :
    Except AuthResponseError (ListAppKeys × AppId × ServiceId) :=
  match response.appKeys with
  | none => .error .listKeysMiss
  | some appKeys =>
    match appKeys.appId, appKeys.serviceId with
    | none, _ => .error .listAppIdMiss
    | some _, none => .error .listServiceIdMiss
    | some appId, some serviceId => .ok (appKeys, appId, serviceId)

/-- The application that the filter forms from a response with these ids.
`none` is the failure on a negative time. -/
def authResponseApplication (response : AuthorizationStatus) (appKeys : ListAppKeys)
    (appId : AppId) (serviceId : ServiceId) : Option Application := do
  let localState ← localStateOfReports (response.usageReports.getD []) ∅
  some
    { appId := .appId appId none
      serviceId := serviceId
      localState := localState
      metricHierarchy := hierarchyOfResponse response.hierarchy
      appKeys := some appKeys.keys }

/-- Changes user_key to app_id for further processing. -/
def recordAppId (f : CacheFilter) (appId : AppId) :
    HostProg (CacheFilter × Except CacheError Unit) :=
  match f.state.cacheKey.appId with
  | .userKey userKey => do
    let result ← setAppIdToCache userKey appId
    pure ({ f with state.reqData.appId := .appId appId none }, result)
  | .appId .. => pure (f, .ok ())

def handleAuthResponse (f : CacheFilter) (response : AuthorizationStatus) :
    HostProg (CacheFilter × Except AuthResponseError Unit) :=
  match authResponseIds response with
  | .error e => pure (f, .error e)
  | .ok (appKeys, appId, serviceId) => do
    match ← f.recordAppId appId with
    | (f, .error e) => pure (f, .error (.appIdNotMapped e))
    | (f, .ok ()) =>
      let f := { f with state.cacheKey := { serviceId := serviceId, appId := .appId appId none } }
      match authResponseApplication response appKeys appId serviceId with
      | none => pure (f, .error .negativeTimeErr)
      | some app =>
        match ← f.handleCacheHit app 0 with
        | (f, .ok ()) => pure (f, .ok ())
        | (f, .error e) => pure (f, .error (.cacheHitErr e))

/-- A parsed response, up to the freeing of the callout-lock: the action for
the waiters, or `none` where the callback returns at once. -/
def onAuthorization (f : CacheFilter) :
    Authorization → HostProg (CacheFilter × Option WaiterAction)
  | .status response =>
    if response.isAuthorized || response.usageReports.isSome then do
      match ← f.handleAuthResponse response with
      | (f, .error _) => do
        let f ← f.requestProcessFailure
        pure (f, some (.handleFailure 0))
      | (f, .ok ()) => pure (f, some (.handleCacheHit 0))
    else do
      incrementStat .unauthorized
      match response.reason with
      | none => .trap
      | some reason => do
        sendHttpResponse 403 (some reason)
        pure (f, some (.handleFailure 0))
  | .error _ => do
    let f ← f.requestProcessFailure
    pure (f, none)

/-- The match on status and body of `on_http_call_response`. -/
def onCallResult (f : CacheFilter) (status : Str) (body : Option ResponseBody) :
    HostProg (CacheFilter × Option WaiterAction) :=
  if status ≠ timeoutStatus then
    match body with
    | some .notUtf8 => .trap
    | some (.parsed authorization) => f.onAuthorization authorization
    | some .unparsable | none => do
      let f ← f.requestProcessFailure
      pure (f, some (.handleFailure 0))
  else do
    incrementStat .authorizeTimeouts
    let f ← f.requestProcessFailure
    pure (f, some (.handleFailure 0))

/-- The lock is freed under the cache key as it was when the callback began. -/
def onHttpCallResponse (f : CacheFilter) (response : CallResponse) : HostProg CacheFilter :=
  match response.status with
  | none => .trap
  | some status => do
    let (f', action) ← f.onCallResult status response.body
    match action with
    | none => pure f'
    | some action => do
      let _ ← freeCalloutLockAndNotifyWaiters f.state.cacheKey action
      pure f'

/-! The response headers -/

def addRateLimitHeader (name : String) : Option UInt64 → HostProg Unit
  | none => pure ()
  | some value => ask (.addHttpResponseHeader name.toList (Nat.toDigits 10 value.toNat))

def onHttpResponseHeaders (f : CacheFilter) : HostProg Action := do
  addRateLimitHeader "RateLimit-Limit" f.state.rateLimitInfo.limit
  addRateLimitHeader "RateLimit-Remaining" f.state.rateLimitInfo.remaining
  addRateLimitHeader "RateLimit-Reset" f.state.rateLimitInfo.reset
  pure .proceed

end CacheFilter
end ThreescaleCache
