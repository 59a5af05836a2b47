import ThreescaleCache.CacheFilter

namespace ThreescaleCache

structure CacheFilterRoot where
  id : Nat
  config : FilterConfig
deriving DecidableEq

def defaultUpstream : Upstream where
  name := []
  url :=
    { scheme := "https".toList, authority := "su1.su1.3scale.net".toList, path := ['/'],
      query := none }
  timeout := .fromMillis 1000

/-- `ThreescaleData::default`. -/
def defaultRequestData : ThreescaleData where
  appId := .userKey []
  serviceId := []
  serviceToken := []
  metrics := ∅
  upstream := defaultUpstream

def WaiterAction.contextId : WaiterAction → Nat
  | .handleCacheHit id => id
  | .handleFailure id => id

namespace CacheFilterRoot

def createHttpContext (root : CacheFilterRoot) (contextId : Nat) : CacheFilter where
  contextId := contextId
  rootId := root.id
  config := root.config
  state :=
    { updateCacheFromSingleton := false
      cacheKey := .empty
      reqData := defaultRequestData
      rateLimitInfo := {} }

/-- A waiter follows the cache hit flow and is resumed once more by its root. -/
def waiterCacheHit (context : CacheFilter) (app : Application) (cas : Nat) : HostProg Unit := do
  match ← context.handleCacheHit app cas with
  | (context, .error _) => do
    let _ ← context.requestProcessFailure
    pure ()
  | (_, .ok ()) => resumeHttpRequest

def lookupForWaiter (context : CacheFilter) : HostProg Unit := do
  match ← getApplicationFromCache context.state.cacheKey with
  | .ok (app, cas) => waiterCacheHit context app cas
  | .error _ => pure ()

/-- The cache key of a waiting context is changed to the app_id pattern; the
request data keep their identifier. -/
def resumeCacheHit (context : CacheFilter) : HostProg Unit :=
  match context.state.cacheKey.appId with
  | .userKey userKey => do
    match ← getAppIdFromCache userKey with
    | .ok appId =>
      lookupForWaiter { context with
        state.cacheKey := context.state.cacheKey.setAppId (.appId appId none) }
    | .error _ => pure ()
  | .appId .. => lookupForWaiter context

/-- The outcome of the callout decides how a waiter goes on. -/
def wakeWaiter (context : CacheFilter) : WaiterAction → HostProg Unit
  | .handleFailure _ => do
    let _ ← context.requestProcessFailure
    pure ()
  | .handleCacheHit _ => resumeCacheHit context

def resumeWaiter (root : CacheFilterRoot) (action : WaiterAction) : HostProg Unit := do
  match ← ask (.getWaitingContext root.id action.contextId) with
  | none => pure ()
  | some context =>
    match ← ask (.setEffectiveContext action.contextId) with
    | .error _ => ask (.removeWaitingContext root.id action.contextId)
    | .ok () => do
      wakeWaiter context action
      ask (.removeWaitingContext root.id action.contextId)

def onQueueReady (root : CacheFilterRoot) (queueId : Nat) : HostProg Unit := do
  match ← dequeueSharedQueue queueId with
  | .ok (some (.waiterAction action)) => root.resumeWaiter action
  | .ok (some (.message _)) => pure ()
  | .ok none => pure ()
  | .error _ => pure ()

end CacheFilterRoot

end ThreescaleCache
