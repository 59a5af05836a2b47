import ThreescaleCache.CacheHitRules

namespace ThreescaleCache

/-! The callout module that the filter is built with where the feature
`unique_callout` is off, as it is by default. -/

namespace UniqueCalloutDummy

/-- An enum without variants. -/
inductive UniqueCalloutError
deriving DecidableEq

def setCalloutLock (_ : CacheFilter) : HostProg (Except UniqueCalloutError SetCalloutLockStatus) :=
  pure (.ok .lockAcquired)

def freeCalloutLockAndNotifyWaiters (_ : CacheKey) (_ : WaiterAction) :
    HostProg (Except UniqueCalloutError Unit) :=
  pure (.ok ())

end UniqueCalloutDummy

/-- What the filter uses of its callout module, with the type of its errors. -/
structure CalloutModule (ε : Type) where
  setCalloutLock : CacheFilter → HostProg (Except ε SetCalloutLockStatus)
  freeCalloutLockAndNotifyWaiters : CacheKey → WaiterAction → HostProg (Except ε Unit)

def uniqueCallout (rounds : Nat) : CalloutModule UniqueCalloutError where
  setCalloutLock := setCalloutLock rounds
  freeCalloutLockAndNotifyWaiters := freeCalloutLockAndNotifyWaiters

def uniqueCalloutDummy : CalloutModule UniqueCalloutDummy.UniqueCalloutError where
  setCalloutLock := UniqueCalloutDummy.setCalloutLock
  freeCalloutLockAndNotifyWaiters := UniqueCalloutDummy.freeCalloutLockAndNotifyWaiters

/-! The callbacks of the filter, by the callout module that it is built with. -/

namespace CacheFilter
variable {ε : Type} (callout : CalloutModule ε) (lib : ThirdParty)

/-- A look-up of the header callback, with what follows a miss. -/
def lookUpBy {δ α : Type} (f : CacheFilter) (read : HostProg (Except δ α))
    (found : α → HostProg (CacheFilter × Action)) : HostProg (CacheFilter × Action) := do
  match ← read with
  | .ok a => found a
  | .error _ => do
    incrementStat .cacheMisses
    match ← callout.setCalloutLock f with
    | .ok .lockAcquired => f.doAuthCall lib
    | .ok .addedToWaitlist => pure (f, .pause)
    | .ok .responseCameFirst =>
      match ← read with
      | .ok a => found a
      | .error _ => f.inRequestFailure
    | .error _ => f.inRequestFailure

def lookupApplicationBy (f : CacheFilter) : HostProg (CacheFilter × Action) :=
  f.lookUpBy callout lib (getApplicationFromCache f.state.cacheKey) fun found =>
    f.cacheHitOrFail found.1 found.2

def onUserKeyBy (f : CacheFilter) (userKey : UserKey) : HostProg (CacheFilter × Action) :=
  f.lookUpBy callout lib (getAppIdFromCache userKey) fun appId =>
    (f.mapped appId).lookupApplicationBy callout lib

def onHttpRequestHeadersBy (f : CacheFilter) (headers : Str → Option Str) : HostProg (CacheFilter × Action) :=
  match getRequestData lib headers with
  | .error _ => do
    incrementStat .authMetadataErrors
    sendHttpResponse 401 none
    pure (f, .pause)
  | .ok data =>
    let f := { f with
      state.cacheKey := { serviceId := data.serviceId, appId := data.appId }
      state.reqData := data }
    match data.appId with
    | .userKey userKey => f.onUserKeyBy callout lib userKey
    | .appId .. => f.lookupApplicationBy callout lib

def onHttpCallResponseBy (f : CacheFilter) (response : CallResponse) : HostProg CacheFilter :=
  match response.status with
  | none => .trap
  | some status => do
    let (f', action) ← f.onCallResult status response.body
    match action with
    | none => pure f'
    | some action => do
      let _ ← callout.freeCalloutLockAndNotifyWaiters f.state.cacheKey action
      pure f'

theorem lookUpBy_uniqueCallout {δ α : Type} (rounds : Nat) (f : CacheFilter) (read : HostProg (Except δ α))
    (found : α → HostProg (CacheFilter × Action)) :
    f.lookUpBy (uniqueCallout rounds) lib read found = f.lookUp lib rounds read found := by
  unfold lookUpBy lookUp
  refine congrArg (read >>= ·) (funext fun first => ?_)
  cases first with
  | ok a => rfl
  | error e =>
    refine congrArg (incrementStat .cacheMisses >>= ·) (funext fun _ => ?_)
    refine congrArg (ThreescaleCache.setCalloutLock rounds f >>= ·) (funext fun status => ?_)
    match status with
    | .ok .lockAcquired => rfl
    | .ok .addedToWaitlist => rfl
    | .error _ => rfl
    | .ok .responseCameFirst =>
      refine congrArg (read >>= ·) (funext fun second => ?_)
      cases second with
      | ok a => rfl
      | error e => rfl

theorem lookupApplicationBy_uniqueCallout (rounds : Nat) (f : CacheFilter) :
    f.lookupApplicationBy (uniqueCallout rounds) lib = f.lookupApplication lib rounds :=
  (lookUpBy_uniqueCallout lib rounds f _ _).trans (lookupApplication_eq lib rounds f).symm

/-- With the feature on, these are the callbacks with the callout-lock. -/
theorem onHttpRequestHeadersBy_uniqueCallout (rounds : Nat) (f : CacheFilter) (headers : Str → Option Str) :
    f.onHttpRequestHeadersBy (uniqueCallout rounds) lib headers = f.onHttpRequestHeaders lib rounds headers := by
  unfold onHttpRequestHeadersBy onHttpRequestHeaders
  cases getRequestData lib headers with
  | error e => rfl
  | ok data =>
    dsimp only
    cases data.appId with
    | userKey userKey =>
      dsimp only
      rw [onUserKey_eq, onUserKeyBy, lookUpBy_uniqueCallout]
      exact congrArg _ (funext fun appId => lookupApplicationBy_uniqueCallout lib rounds _)
    | appId id key => exact lookupApplicationBy_uniqueCallout lib rounds _

theorem onHttpCallResponseBy_uniqueCallout (rounds : Nat) (f : CacheFilter) (response : CallResponse) :
    f.onHttpCallResponseBy (uniqueCallout rounds) response = f.onHttpCallResponse response := rfl

end CacheFilter
end ThreescaleCache
