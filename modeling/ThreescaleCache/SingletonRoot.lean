import ThreescaleCache.Report
import ThreescaleCache.SingletonService

namespace ThreescaleCache

/-- A `HashMap<u32, V>` from the tokens of the calls that are out. -/
abbrev TokenMap (V : Type) := AList fun _ : Nat => V

/-- The keys of `cacheKeys` are what `Hash` and `PartialEq` see of a cache
key; the cache key itself is the one that was inserted first. -/
structure SingletonService where
  queueId : Option Nat
  deltaStore : DeltaStore
  cacheKeys : HashMap (CacheKey × ServiceToken)
  reportRequests : TokenMap Report
  authRequests : TokenMap CacheKey
deriving DecidableEq

/-- A report, with the key of the deltas that it was built from. -/
abbrev BuiltReport := Str × Report

namespace SingletonService

/-- Started with a configuration and the queue that it registered. -/
def start (queueId : Option Nat) (config : DeltaStoreConfig) : SingletonService where
  queueId := queueId
  deltaStore := { deltas := ∅, memoryAllocated := 0, config := config }
  cacheKeys := ∅
  reportRequests := ∅
  authRequests := ∅

/-- `on_vm_start`, once the queue is registered: initializes the shared memory counter. -/
def onVmStart : HostProg Bool := do
  match ← setSharedData sharedMemoryCounterKey (some (.memoryCounter sharedMemoryInitialSize)) none with
  | .ok () => pure true
  | .error _ => pure false

def singletonUpstream : Upstream where
  name := "outbound|443||su1.3scale.net".toList
  url := { scheme := "https".toList, authority := "su1.3scale.net".toList, path := ['/'], query := none }
  timeout := .fromMillis 5000

/-- Both report and authorize calls use this to send their requests. -/
def performHttpCall (request : HttpRequest) : HostProg (Except Status Nat) :=
  singletonUpstream.call request.uri request.method request.headers request.body

/-- Clones the deltas and empties the store. -/
def flushDeltaStore (self : SingletonService) : SingletonService × Deltas :=
  ({ self with deltaStore := { self.deltaStore with deltas := ∅, memoryAllocated := 0 } },
    self.deltaStore.deltas)

/-- The loop over the deltas of `flush_local_cache`. The reports that it
builds are returned too, for the statements about runs. -/
def sendReports (calls : ApiCalls) : List (Sigma fun _ : Str => AppMap Metrics) →
    SingletonService → HostProg (SingletonService × List BuiltReport)
  | [], self => pure (self, [])
  | ⟨key, apps⟩ :: rest, self =>
    match report key apps with
    | none => .trap
    | some built =>
      match calls.buildReport built.call with
      | none => .trap
      | some request => do
        match ← performHttpCall request with
        | .ok tokenId => do
          let self := { self with reportRequests := self.reportRequests.insert tokenId built }
          let (self, more) ← sendReports calls rest self
          pure (self, (key, built) :: more)
        | .error _ => do
          let (self, more) ← sendReports calls rest self
          pure (self, (key, built) :: more)

/-- The loop over the cache keys of `update_local_cache`. -/
def sendAuthRequests (calls : ApiCalls) : List (Sigma fun _ : Str => CacheKey × ServiceToken) →
    SingletonService → HostProg SingletonService
  | [], self => pure self
  | ⟨_, cacheKey, serviceToken⟩ :: rest, self =>
    match calls.buildAuth (authCall cacheKey serviceToken) with
    | none => sendAuthRequests calls rest self
    | some request => do
      match ← performHttpCall request with
      | .ok tokenId =>
        sendAuthRequests calls rest
          { self with authRequests := self.authRequests.insert tokenId cacheKey }
      | .error _ => sendAuthRequests calls rest self

/-- Updates the local cache by sending authorize requests. -/
def updateLocalCache (calls : ApiCalls) (self : SingletonService) : HostProg SingletonService :=
  sendAuthRequests calls self.cacheKeys.entries self

/-- Sends a report call per service, and refreshes the local cache. -/
def flushLocalCache (calls : ApiCalls) (self : SingletonService) :
    HostProg (SingletonService × List BuiltReport) := do
  let (self, built) ← sendReports calls self.flushDeltaStore.2.entries self.flushDeltaStore.1
  let self ← self.updateLocalCache calls
  pure (self, built)

/-- `cache_keys.entry(..).or_insert_with(..)`. -/
def noteCacheKey (self : SingletonService) (data : ThreescaleData) : SingletonService :=
  let cacheKey : CacheKey := { serviceId := data.serviceId, appId := data.appId }
  match self.cacheKeys.lookup cacheKey.asString with
  | some _ => self
  | none => { self with
      cacheKeys := self.cacheKeys.insert cacheKey.asString (cacheKey, data.serviceToken) }

/-- Adds the entry to the delta store, and flushes a store that is full. -/
def recordUsage (calls : ApiCalls) (sizes : Sizes) (self : SingletonService) (data : ThreescaleData) :
    HostProg (SingletonService × List BuiltReport) :=
  let self := self.noteCacheKey data
  let (store, state) := self.deltaStore.updateDeltaStore sizes data
  let self := { self with deltaStore := store }
  if state = .flush then self.flushLocalCache calls else pure (self, [])

/-- A message on the queue is handled; a failing update of the cache panics,
as does an entry that is no message. -/
def onQueueReady (calls : ApiCalls) (sizes : Sizes) (self : SingletonService) :
    HostProg (SingletonService × List BuiltReport) :=
  match self.queueId with
  | none => .trap
  | some queueId => do
    match ← dequeueSharedQueue queueId with
    | .ok (some (.message message)) =>
      if message.updateCacheFromSingleton then do
        match ← updateApplicationCache message.data message.reqTime with
        | .ok () => self.recordUsage calls sizes message.data
        | .error _ => .trap
      else self.recordUsage calls sizes message.data
    | .ok (some (.waiterAction _)) => .trap
    | .ok none => pure (self, [])
    | .error _ => pure (self, [])

/-- The delta store is flushed in case of a low traffic too. -/
def onTick (calls : ApiCalls) (self : SingletonService) :
    HostProg (SingletonService × List BuiltReport) :=
  if self.deltaStore.config.flushMode ≠ .containerLimit then self.flushLocalCache calls
  else pure (self, [])

def handleReportResponse (self : SingletonService) (tokenId : Nat) : SingletonService :=
  { self with reportRequests := self.reportRequests.erase tokenId }

/-- Handles authorize failure in case of a 404 response from 3scale. -/
def handleAuthFailure (self : SingletonService) (tokenId : Nat) : HostProg SingletonService :=
  match self.authRequests.lookup tokenId with
  | none => pure self
  | some cacheKey => do
    removeApplicationFromCache cacheKey.asString
    decrementStat .cachedApps
    pure { self with
      cacheKeys := self.cacheKeys.erase cacheKey.asString
      authRequests := self.authRequests.erase tokenId }

def onHttpCallResponse (self : SingletonService) (tokenId : Nat) (response : CallResponse) :
    HostProg SingletonService :=
  match response.status with
  | none => .trap
  | some status =>
    if status ≠ timeoutStatus then
      match response.body with
      | some bytes => do
        match ← handleAuthResponse bytes status with
        | .error .authResponse => self.handleAuthFailure tokenId
        | _ => pure { self with authRequests := self.authRequests.erase tokenId }
      | none =>
        if tokenId ∈ self.reportRequests then pure (self.handleReportResponse tokenId) else pure self
    else do
      incrementStat .authorizeTimeouts
      if tokenId ∈ self.reportRequests then pure (self.handleReportResponse tokenId)
      else if tokenId ∈ self.authRequests then
        pure { self with authRequests := self.authRequests.erase tokenId }
      else pure self

end SingletonService
end ThreescaleCache
