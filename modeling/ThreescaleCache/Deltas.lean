import ThreescaleCache.Structs

namespace ThreescaleCache

/-- The method of the cache flush. -/
inductive FlushMode where
  | containerLimit
  | periodical
  | default
deriving DecidableEq

structure DeltaStoreConfig where
  capacity : UInt64 := 100
  flushMode : FlushMode := .default
deriving DecidableEq

/-- `std::mem::size_of` of the types that the store is made of, as the
compiler of the target lays them out. -/
structure Sizes where
  string : UInt32
  appIdentifier : UInt32
  /-- `HashMap<AppIdentifier, HashMap<String, u64>>` -/
  appMap : UInt32
  /-- `HashMap<String, u64>` -/
  metricMap : UInt32

/-- A `HashMap<AppIdentifier, V>`. It is looked up by what `Hash` and
`PartialEq` see of an identifier; the identifier itself is the one that was
inserted first. -/
abbrev AppMap (V : Type) := HashMap (AppIdentifier × V)

abbrev Deltas := HashMap (AppMap Metrics)

/-- In-memory storage of the deltas of metrics until they get flushed. A
`usize` of the target has 32 bits. -/
structure DeltaStore where
  deltas : Deltas
  memoryAllocated : UInt32
  config : DeltaStoreConfig
deriving DecidableEq

inductive DeltaStoreState where
  | flush
  | ok
deriving DecidableEq

namespace DeltaStore

def deltaKey (serviceId : ServiceId) (serviceToken : ServiceToken) : Str :=
  serviceId ++ '_' :: serviceToken

/-- What one metric of an application takes. -/
def metricAlloc (sizes : Sizes) : UInt32 := sizes.string + 8

/-- The loop of `update_app_delta`, with the allocation so far. -/
def updateAppDelta (sizes : Sizes) :
    List (Sigma fun _ : Str => UInt64) → Metrics → UInt32 → Metrics × UInt32
  | [], appDelta, alloc => (appDelta, alloc)
  | ⟨metric, value⟩ :: rest, appDelta, alloc =>
    match appDelta.lookup metric with
    | some held => updateAppDelta sizes rest (appDelta.insert metric (held + value)) alloc
    | none => updateAppDelta sizes rest (appDelta.insert metric value) (alloc + metricAlloc sizes)

def addAppDelta (sizes : Sizes) (service : AppMap Metrics) (data : ThreescaleData) :
    AppMap Metrics × UInt32 :=
  (service.insert data.appId.asRef (data.appId, data.metrics),
    sizes.appIdentifier + sizes.metricMap +
      UInt32.ofNat data.metrics.entries.length * metricAlloc sizes)

/-- The deltas after a message, and the increase of the allocation. -/
def fileDelta (sizes : Sizes) (deltas : Deltas) (data : ThreescaleData) : Deltas × UInt32 :=
  let key := deltaKey data.serviceId data.serviceToken
  match deltas.lookup key with
  | some service =>
    match service.lookup data.appId.asRef with
    | some (id, app) =>
      let (app, increase) := updateAppDelta sizes data.metrics.entries app 0
      (deltas.insert key (service.insert data.appId.asRef (id, app)), increase)
    | none =>
      let (service, increase) := addAppDelta sizes service data
      (deltas.insert key service, increase)
  | none =>
    let usages : AppMap Metrics :=
      (∅ : AppMap Metrics).insert data.appId.asRef (data.appId, data.metrics)
    let transitiveAlloc := sizes.metricMap + sizes.appIdentifier +
      UInt32.ofNat data.metrics.entries.length * metricAlloc sizes
    let directAlloc := sizes.string + sizes.appMap
    (deltas.insert key usages, directAlloc + transitiveAlloc)

/-- The first message of a service opens its map. -/
theorem fileDelta_newService {sizes : Sizes} {deltas : Deltas} {data : ThreescaleData}
    (absent : deltas.lookup (deltaKey data.serviceId data.serviceToken) = none) :
    fileDelta sizes deltas data =
      (deltas.insert (deltaKey data.serviceId data.serviceToken)
          ((∅ : AppMap Metrics).insert data.appId.asRef (data.appId, data.metrics)),
        sizes.string + sizes.appMap + (sizes.metricMap + sizes.appIdentifier +
          UInt32.ofNat data.metrics.entries.length * metricAlloc sizes)) := by
  simp only [fileDelta, absent]

/-- The first message of an application in a service. -/
theorem fileDelta_newApp {sizes : Sizes} {deltas : Deltas} {data : ThreescaleData} {service : AppMap Metrics}
    (here : deltas.lookup (deltaKey data.serviceId data.serviceToken) = some service)
    (absent : service.lookup data.appId.asRef = none) :
    fileDelta sizes deltas data =
      (deltas.insert (deltaKey data.serviceId data.serviceToken) (addAppDelta sizes service data).1,
        (addAppDelta sizes service data).2) := by
  simp only [fileDelta, here, absent]

theorem fileDelta_known {sizes : Sizes} {deltas : Deltas} {data : ThreescaleData} {service : AppMap Metrics}
    {id : AppIdentifier} {app : Metrics}
    (here : deltas.lookup (deltaKey data.serviceId data.serviceToken) = some service)
    (known : service.lookup data.appId.asRef = some (id, app)) :
    fileDelta sizes deltas data =
      (deltas.insert (deltaKey data.serviceId data.serviceToken)
          (service.insert data.appId.asRef (id, (updateAppDelta sizes data.metrics.entries app 0).1)),
        (updateAppDelta sizes data.metrics.entries app 0).2) := by
  simp only [fileDelta, here, known]

/-- Gets called for each message received through the message queue. The
capacity is cast to a `usize`. -/
def updateDeltaStore (sizes : Sizes) (store : DeltaStore) (data : ThreescaleData) :
    DeltaStore × DeltaStoreState :=
  let (deltas, increase) := fileDelta sizes store.deltas data
  if store.config.flushMode ≠ .periodical then
    let allocated := store.memoryAllocated + increase
    ({ store with deltas := deltas, memoryAllocated := allocated },
      if store.config.capacity.toUInt32 ≤ allocated then .flush else .ok)
  else ({ store with deltas := deltas }, .ok)

end DeltaStore
end ThreescaleCache
