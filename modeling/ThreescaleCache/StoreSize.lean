import Mathlib.Data.UInt
import ThreescaleCache.Ledger.Amount
import ThreescaleCache.SingletonRun

namespace ThreescaleCache
open Interaction

/-! The size of the delta store: the counter that is kept with it is the
weight of what it contains. -/

namespace Deltas

def services (deltas : Deltas) : Nat := deltas.entries.length

def applications (deltas : Deltas) : Nat :=
  Ledger.weight (fun _ apps => apps.entries.length) deltas

def metricsOf (apps : AppMap Metrics) : Nat := Ledger.weight (fun _ app => app.2.entries.length) apps

def metrics (deltas : Deltas) : Nat := Ledger.weight (fun _ apps => metricsOf apps) deltas

/-- What the contents of the store take, as a natural number. -/
def storeWeight (sizes : Sizes) (deltas : Deltas) : Nat :=
  services deltas * (sizes.string.toNat + sizes.appMap.toNat) +
    applications deltas * (sizes.appIdentifier.toNat + sizes.metricMap.toNat) +
    metrics deltas * (sizes.string.toNat + 8)

end Deltas

/-- The loop allocates for the metrics that were not there. -/
theorem updateAppDelta_alloc (sizes : Sizes) (entries : List (Sigma fun _ : Str => UInt64))
    (appDelta : Metrics) (alloc : UInt32) :
    ∃ added, (DeltaStore.updateAppDelta sizes entries appDelta alloc).1.entries.length =
        appDelta.entries.length + added ∧
      (DeltaStore.updateAppDelta sizes entries appDelta alloc).2 =
        alloc + UInt32.ofNat added * DeltaStore.metricAlloc sizes := by
  induction entries generalizing appDelta alloc with
  | nil => exact ⟨0, rfl, by simp [DeltaStore.updateAppDelta]⟩
  | cons entry rest ih =>
    obtain ⟨metric, value⟩ := entry
    unfold DeltaStore.updateAppDelta
    cases here : appDelta.lookup metric with
    | some held =>
      obtain ⟨added, length, allocated⟩ := ih (appDelta.insert metric (held + value)) alloc
      exact ⟨added, by rw [length, Ledger.length_insert_present _ here], allocated⟩
    | none =>
      obtain ⟨added, length, allocated⟩ :=
        ih (appDelta.insert metric value) (alloc + DeltaStore.metricAlloc sizes)
      have absent : metric ∉ appDelta := AList.lookup_eq_none.mp here
      refine ⟨added + 1, ?_, ?_⟩
      · dsimp only
        rw [length, Ledger.length_insert_absent _ absent]
        omega
      · dsimp only
        rw [allocated, UInt32.ofNat_add, add_mul, add_assoc, add_comm (UInt32.ofNat added * _)]
        simp

/-- `increase` is how much heavier the store has become, as the target counts. -/
def Heavier (sizes : Sizes) (before after : Deltas) (increase : UInt32) : Prop :=
  ∃ more, Deltas.storeWeight sizes after = Deltas.storeWeight sizes before + more ∧
    increase = UInt32.ofNat more

/-- Counts grow by what a message adds, and the allocation by their weight. -/
theorem heavier_of_counts {sizes : Sizes} {before after : Deltas} {increase : UInt32}
    (services applications metrics : Nat)
    (services_ : Deltas.services after = Deltas.services before + services)
    (applications_ : Deltas.applications after = Deltas.applications before + applications)
    (metrics_ : Deltas.metrics after = Deltas.metrics before + metrics)
    (increase_ : increase = UInt32.ofNat services * (sizes.string + sizes.appMap) +
      UInt32.ofNat applications * (sizes.appIdentifier + sizes.metricMap) +
      UInt32.ofNat metrics * DeltaStore.metricAlloc sizes) : Heavier sizes before after increase := by
  refine ⟨services * (sizes.string.toNat + sizes.appMap.toNat) +
    applications * (sizes.appIdentifier.toNat + sizes.metricMap.toNat) +
    metrics * (sizes.string.toNat + 8), ?_, ?_⟩
  · unfold Deltas.storeWeight
    rw [services_, applications_, metrics_, Nat.add_mul, Nat.add_mul, Nat.add_mul]
    omega
  · simp only [increase_, UInt32.ofNat_add, UInt32.ofNat_mul, UInt32.ofNat_toNat]
    rfl

theorem services_insert_absent {deltas : Deltas} {key : Str} (apps : AppMap Metrics) (absent : key ∉ deltas) :
    Deltas.services (deltas.insert key apps) = Deltas.services deltas + 1 :=
  Ledger.length_insert_absent apps absent

theorem services_insert_present {deltas : Deltas} {key : Str} {old : AppMap Metrics} (apps : AppMap Metrics)
    (here : deltas.lookup key = some old) :
    Deltas.services (deltas.insert key apps) = Deltas.services deltas :=
  Ledger.length_insert_present apps here

/-- A service that grows lets the counts of the store grow. -/
theorem counts_of_service {deltas : Deltas} {key : Str} {service service' : AppMap Metrics}
    (here : deltas.lookup key = some service) {applications metrics : Nat}
    (applications_ : service'.entries.length = service.entries.length + applications)
    (metrics_ : Deltas.metricsOf service' = Deltas.metricsOf service + metrics) :
    Deltas.services (deltas.insert key service') = Deltas.services deltas ∧
      Deltas.applications (deltas.insert key service') = Deltas.applications deltas + applications ∧
      Deltas.metrics (deltas.insert key service') = Deltas.metrics deltas + metrics := by
  have apps : Deltas.applications (deltas.insert key service') + service.entries.length =
      service'.entries.length + Deltas.applications deltas := Ledger.weight_insert_present _ service' here
  have stored : Deltas.metrics (deltas.insert key service') + Deltas.metricsOf service =
      Deltas.metricsOf service' + Deltas.metrics deltas := Ledger.weight_insert_present _ service' here
  refine ⟨services_insert_present service' here, ?_, ?_⟩
  · omega
  · omega

theorem fileDelta_heavier (sizes : Sizes) (deltas : Deltas) (data : ThreescaleData) :
    Heavier sizes deltas (DeltaStore.fileDelta sizes deltas data).1
      (DeltaStore.fileDelta sizes deltas data).2 := by
  cases service_ : deltas.lookup (DeltaStore.deltaKey data.serviceId data.serviceToken) with
  | none =>
    rw [DeltaStore.fileDelta_newService service_]
    have absent := AList.lookup_eq_none.mp service_
    refine heavier_of_counts 1 1 data.metrics.entries.length (services_insert_absent _ absent) ?_ ?_ ?_
    · exact (Ledger.weight_insert_absent _ _ absent).trans (Nat.add_comm _ _)
    · exact (Ledger.weight_insert_absent _ _ absent).trans (Nat.add_comm _ _)
    · rw [show UInt32.ofNat 1 = 1 from rfl, one_mul, one_mul, add_comm sizes.metricMap]
      exact (UInt32.add_assoc _ _ _).symm
  | some service =>
    cases app_ : service.lookup data.appId.asRef with
    | none =>
      rw [DeltaStore.fileDelta_newApp service_ app_]
      have absent := AList.lookup_eq_none.mp app_
      obtain ⟨services, applications, metrics⟩ := counts_of_service service_
        (Ledger.length_insert_absent (data.appId, data.metrics) absent)
        ((Ledger.weight_insert_absent _ (data.appId, data.metrics) absent).trans (Nat.add_comm _ _))
      refine heavier_of_counts 0 1 data.metrics.entries.length services applications metrics ?_
      rw [show UInt32.ofNat 0 = 0 from rfl, show UInt32.ofNat 1 = 1 from rfl, zero_mul, one_mul, zero_add]
      rfl
    | some entry =>
      obtain ⟨id, app⟩ := entry
      rw [DeltaStore.fileDelta_known service_ app_]
      obtain ⟨added, length, allocated⟩ := updateAppDelta_alloc sizes data.metrics.entries app 0
      have stored : Deltas.metricsOf (service.insert data.appId.asRef
          (id, (DeltaStore.updateAppDelta sizes data.metrics.entries app 0).1)) =
          Deltas.metricsOf service + added := by
        have replaced : Deltas.metricsOf (service.insert data.appId.asRef
              (id, (DeltaStore.updateAppDelta sizes data.metrics.entries app 0).1)) + app.entries.length =
            (DeltaStore.updateAppDelta sizes data.metrics.entries app 0).1.entries.length +
              Deltas.metricsOf service := Ledger.weight_insert_present _ _ app_
        omega
      have same : (service.insert data.appId.asRef
          (id, (DeltaStore.updateAppDelta sizes data.metrics.entries app 0).1)).entries.length =
          service.entries.length + 0 := Ledger.length_insert_present _ app_
      obtain ⟨services, applications, metrics⟩ := counts_of_service service_ same stored
      refine heavier_of_counts 0 0 added services applications metrics ?_
      rw [allocated, show UInt32.ofNat 0 = 0 from rfl, zero_mul, zero_mul, zero_add, zero_add, zero_add]

/-! Runs -/

/-- The counter is the weight of the contents, up to the width of a `usize`,
and is below the capacity. -/
structure SizeKept (sizes : Sizes) (config : DeltaStoreConfig) (store : DeltaStore) : Prop where
  config_ : store.config = config
  counted : store.memoryAllocated = UInt32.ofNat (Deltas.storeWeight sizes store.deltas)
  bounded : store.memoryAllocated.toNat < config.capacity.toNat

/-- A message is counted; if the store is not to be flushed, it is below the
capacity after it. -/
theorem updateDeltaStore_counted {sizes : Sizes} {config : DeltaStoreConfig} {store : DeltaStore}
    (mode : config.flushMode ≠ .periodical) (kept : SizeKept sizes config store) (data : ThreescaleData) :
    (store.updateDeltaStore sizes data).1.config = config ∧
      (store.updateDeltaStore sizes data).1.memoryAllocated =
        UInt32.ofNat (Deltas.storeWeight sizes (store.updateDeltaStore sizes data).1.deltas) ∧
      ((store.updateDeltaStore sizes data).2 ≠ .flush →
        (store.updateDeltaStore sizes data).1.memoryAllocated.toNat < config.capacity.toNat) := by
  obtain ⟨more, heavier, increase⟩ := fileDelta_heavier sizes store.deltas data
  have mode' : store.config.flushMode ≠ .periodical := by
    rw [kept.config_]
    exact mode
  unfold DeltaStore.updateDeltaStore
  dsimp only
  rw [if_pos mode']
  refine ⟨kept.config_, ?_, ?_⟩
  · dsimp only
    rw [heavier, increase, kept.counted, UInt32.ofNat_add]
  · intro flush
    dsimp only at flush ⊢
    split at flush
    · exact absurd rfl flush
    · rename_i below
      rw [kept.config_, UInt32.le_iff_toNat_le, UInt64.toNat_toUInt32] at below
      have truncated := Nat.mod_le config.capacity.toNat (2 ^ 32)
      omega

theorem sizeKept_emptied {sizes : Sizes} {config : DeltaStoreConfig} {store : DeltaStore}
    (positive : 0 < config.capacity) (config_ : store.config = config) :
    SizeKept sizes config { store with deltas := ∅, memoryAllocated := 0 } := by
  refine ⟨config_, ?_, ?_⟩
  · show (0 : UInt32) = UInt32.ofNat (Deltas.storeWeight sizes ∅)
    have nothing : Deltas.storeWeight sizes ∅ = 0 := by
      simp [Deltas.storeWeight, Deltas.services, Deltas.applications, Deltas.metrics]
    rw [nothing]
    rfl
  · exact UInt64.lt_iff_toNat_lt.mp positive

theorem sizeKept_step {calls : ApiCalls} {sizes : Sizes} {config : DeltaStoreConfig}
    {admits : SingletonRun → Occasion → List HostEvent → Prop} {r r' : SingletonRun}
    (mode : config.flushMode ≠ .periodical) (positive : 0 < config.capacity)
    (kept : SizeKept sizes config r.service.deltaStore) (step : SingletonRun.Step calls sizes admits r r') :
    SizeKept sizes config r'.service.deltaStore := by
  obtain ⟨occasion, t, s, built, _, path⟩ := step
  show SizeKept sizes config s.deltaStore
  rcases SingletonRun.callback_ended path with ⟨_, received⟩ | ⟨_, ended⟩ |
    ⟨token, response, _, _, _, _, responded⟩
  · cases received with
    | nothing same => rwa [same]
    | message data later _ _ ended flush =>
      obtain ⟨config_, counted, bounded⟩ := updateDeltaStore_counted mode kept data
      cases ended with
      | flushed flushed =>
        rw [flushed.emptied]
        exact sizeKept_emptied positive config_
      | kept same =>
        by_cases full : (r.service.deltaStore.updateDeltaStore sizes data).2 = .flush
        · rw [(flush full).emptied]
          exact sizeKept_emptied positive config_
        · rw [same]
          exact ⟨config_, counted, bounded full⟩
  · cases ended with
    | kept same => rwa [same]
    | flushed flushed =>
      rw [flushed.emptied]
      exact sizeKept_emptied positive kept.config_
  · cases responded <;> exact kept

/-- In every run the counter of the store is exactly the weight of its
contents, as long as these fit in memory, and after every callback it is
below the capacity. -/
theorem storeSize_exact {calls : ApiCalls} {sizes : Sizes} {queueId : Option Nat}
    {config : DeltaStoreConfig} (mode : config.flushMode ≠ .periodical) (positive : 0 < config.capacity)
    {admits : SingletonRun → Occasion → List HostEvent → Prop} {r : SingletonRun}
    (runs : SingletonRun.Runs calls sizes admits queueId config r) :
    r.service.deltaStore.memoryAllocated.toNat < config.capacity.toNat ∧
      (Deltas.storeWeight sizes r.service.deltaStore.deltas < 2 ^ 32 →
        r.service.deltaStore.memoryAllocated.toNat =
          Deltas.storeWeight sizes r.service.deltaStore.deltas) := by
  have start : SizeKept sizes config (SingletonRun.begin queueId config).service.deltaStore := by
    have emptied : ({ deltas := ∅, memoryAllocated := 0, config := config } : DeltaStore).config = config := rfl
    exact sizeKept_emptied positive emptied
  have kept := runs.invariant start fun _ _ kept step => sizeKept_step mode positive kept step
  refine ⟨kept.bounded, fun fits => ?_⟩
  rw [kept.counted]
  exact UInt32.toNat_ofNat_of_lt' fits

/-- A service with room for more than one message, which has met one. -/
def holdingHit : SingletonService where
  queueId := some 7
  deltaStore :=
    { deltas := (∅ : Deltas).insert "s_t".toList
        ((∅ : AppMap Metrics).insert ['a'] (oneHit.appId, oneHit.metrics))
      memoryAllocated := 120
      config := { capacity := 1000 } }
  cacheKeys := (∅ : HashMap (CacheKey × ServiceToken)).insert "s_a".toList (⟨['s'], oneHit.appId⟩, ['t'])
  reportRequests := ∅
  authRequests := ∅

def holdingRun : SingletonRun :=
  (SingletonRun.begin (some 7) { capacity := 1000 }).after .queueReady
    [⟨.dequeueSharedQueue 7, .ok (some (.message hitMessage))⟩] holdingHit []

theorem holdingRun_size :
    holdingHit.deltaStore.memoryAllocated.toNat < 1000 ∧
      (Deltas.storeWeight wasmSizes holdingHit.deltaStore.deltas < 2 ^ 32 →
        holdingHit.deltaStore.memoryAllocated.toNat =
          Deltas.storeWeight wasmSizes holdingHit.deltaStore.deltas) := by
  have path : Prog.Path (Occasion.queueReady.callback oneHitCalls wasmSizes
      (SingletonRun.begin (some 7) { capacity := 1000 }).service)
      [⟨.dequeueSharedQueue 7, .ok (some (.message hitMessage))⟩] (.done (holdingHit, [])) := .next .start
  have runs : SingletonRun.Runs oneHitCalls wasmSizes (fun _ _ _ => True) (some 7) { capacity := 1000 }
      holdingRun := .single (.callback .queueReady _ _ _ trivial path)
  have mode : DeltaStoreConfig.flushMode { capacity := 1000 } ≠ .periodical := by decide
  exact storeSize_exact mode (by decide) runs

end ThreescaleCache
