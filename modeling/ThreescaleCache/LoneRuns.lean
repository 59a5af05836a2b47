import ThreescaleCache.CacheHitRules
import ThreescaleCache.Interaction.Alone

namespace ThreescaleCache
open Interaction

/-! What the programs do to the cache when they run alone. -/

namespace SharedData

theorem value_put_self (d : SharedData) (key : Str) (value : Option SharedValue) :
    (d.put key value).value key = value := by
  simp only [SharedData.value, get_present (d.put_entry_self key value)]

theorem value_put_ne (d : SharedData) {key other : Str} (value : Option SharedValue)
    (different : other ≠ key) : (d.put key value).value other = d.value other := by
  simp only [SharedData.value, get, d.put_entry_ne value different]

theorem value_put (d : SharedData) (key other : Str) (value : Option SharedValue) :
    (d.put key value).value other = if other = key then value else d.value other := by
  by_cases same : other = key
  · rw [if_pos same, same, value_put_self]
  · rw [if_neg same, d.value_put_ne value same]

theorem get_cases (d : SharedData) (key : Str) :
    (∃ cas, d.get key = (none, cas)) ∨ ∃ v cas, d.get key = (some v, some cas) := by
  match here : d.entry key with
  | none => exact Or.inl ⟨none, get_absent here⟩
  | some (none, cas) => exact Or.inl ⟨some cas, get_present here⟩
  | some (some v, cas) => exact Or.inr ⟨v, cas, get_present here⟩

/-- A write without a CAS is never refused. -/
theorem no_cas : (none : Option Nat).getD 0 = 0 := rfl

/-- The same values, but that the counter may have been written where there was
no application. -/
def Alike (d d' : SharedData) : Prop :=
  ∀ key, d'.value key = d.value key ∨ key = sharedMemoryCounterKey ∧
    (∀ app, d.value key ≠ some (.application app)) ∧ ∀ app, d'.value key ≠ some (.application app)

theorem Alike.refl (d : SharedData) : Alike d d := fun _ => Or.inl rfl

theorem Alike.trans {d₁ d₂ d₃ : SharedData} (first : Alike d₁ d₂) (second : Alike d₂ d₃) : Alike d₁ d₃ := by
  intro key
  rcases first key with same | ⟨counter, none_, none'⟩
  · rw [← same]
    exact second key
  · rcases second key with same' | ⟨-, -, none''⟩
    · exact Or.inr ⟨counter, none_, same' ▸ none'⟩
    · exact Or.inr ⟨counter, none_, none''⟩

theorem Alike.application {d d' : SharedData} (alike : d.Alike d') (key : Str) (app : Application) :
    d'.value key = some (.application app) ↔ d.value key = some (.application app) := by
  rcases alike key with same | ⟨-, none_, none'⟩
  · rw [same]
  · exact iff_of_false (none' app) (none_ app)

/-- No application is under the key of the counter. -/
def CounterFree (d : SharedData) : Prop := ∀ app, d.value sharedMemoryCounterKey ≠ some (.application app)

theorem CounterFree.put (d : SharedData) (size : UInt64) :
    CounterFree (d.put sharedMemoryCounterKey (some (.memoryCounter size))) := by
  intro app
  rw [value_put_self]
  simp

theorem CounterFree.alike {d : SharedData} (free : d.CounterFree) (size : UInt64) :
    d.Alike (d.put sharedMemoryCounterKey (some (.memoryCounter size))) := by
  intro key
  by_cases same : key = sharedMemoryCounterKey
  · subst same
    exact Or.inr ⟨rfl, free, CounterFree.put d size⟩
  · exact Or.inl (d.value_put_ne _ same)

/-- The application stored under a key. -/
def applicationAt (d : SharedData) (key : CacheKey) : Option Application :=
  match d.value key.asString with
  | some (.application app) => some app
  | _ => none

/-- What a user_key is mapped to: any text that is stored under it. -/
def appIdAt (d : SharedData) (userKey : UserKey) : Option AppId := (d.value userKey).bind SharedValue.text

/-- The application that a request with this cache key finds: a user_key is
looked up through its mapping. -/
def applicationOf (d : SharedData) (key : CacheKey) : Option Application :=
  match key.appId with
  | .userKey userKey => (d.appIdAt userKey).bind fun id => d.applicationAt (key.setAppId (.appId id none))
  | .appId .. => d.applicationAt key

theorem applicationAt_eq_some {d : SharedData} {key : CacheKey} {app : Application} :
    d.applicationAt key = some app ↔ d.value key.asString = some (.application app) := by
  unfold applicationAt
  split
  · rename_i app' here
    simp [here]
  · rename_i other
    exact iff_of_false (by simp) fun here => other app here

theorem applicationAt_erased (d : SharedData) (key : Str) (other : CacheKey) :
    (d.put key none).applicationAt other = if other.asString = key then none else d.applicationAt other := by
  unfold applicationAt
  by_cases same : other.asString = key
  · rw [same, value_put_self, if_pos rfl]
  · rw [value_put_ne _ _ same, if_neg same]

theorem applicationOf_userKey {d : SharedData} {key : CacheKey} {userKey : UserKey}
    (by_ : key.appId = .userKey userKey) : d.applicationOf key =
      (d.appIdAt userKey).bind fun id => d.applicationAt (key.setAppId (.appId id none)) := by
  simp only [applicationOf, by_]

end SharedData

/-! The memory counter -/

namespace SharedData

/-- The counter with its next size; there is none where the update traps. -/
def withCounter (d : SharedData) : Option UInt64 → SharedData
  | some size => d.put sharedMemoryCounterKey (some (.memoryCounter size))
  | none => d

/-- The size that an update of the counter starts from, if it can be read. -/
def countedFrom (d : SharedData) : Option UInt64 :=
  match d.value sharedMemoryCounterKey with
  | some v => v.counter
  | none => some sharedMemoryInitialSize

/-- The update of the counter panics. -/
def RecountPanics (d : SharedData) (delta : Int32) : Prop :=
  ∃ used ∈ d.countedFrom, finalSharedMemorySize used delta = none

instance (d : SharedData) (delta : Int32) : Decidable (d.RecountPanics delta) :=
  inferInstanceAs (Decidable (∃ used ∈ d.countedFrom, finalSharedMemorySize used delta = none))

theorem recountPanics_iff {d : SharedData} {delta : Int32} {used : UInt64} (from_ : d.countedFrom = some used) :
    d.RecountPanics delta ↔ finalSharedMemorySize used delta = none := by
  simp [RecountPanics, from_]

/-- What some tries to add to the memory counter leave, made alone. -/
def recounted (d : SharedData) (delta : Int32) : SharedData :=
  match d.value sharedMemoryCounterKey with
  | some v =>
    match v.counter with
    | some used => d.withCounter (finalSharedMemorySize used delta)
    | none => d
  | none => (d.put sharedMemoryCounterKey (some (.memoryCounter sharedMemoryInitialSize))).withCounter
      (finalSharedMemorySize sharedMemoryInitialSize delta)

theorem CounterFree.withCounter {d : SharedData} (free : d.CounterFree) (size : Option UInt64) :
    d.Alike (d.withCounter size) := by
  cases size with
  | none => exact .refl d
  | some size => exact free.alike size

theorem recounted_alike (d : SharedData) (delta : Int32) : d.Alike (d.recounted delta) := by
  unfold recounted
  split
  · rename_i v here
    split
    · rename_i used counts
      refine CounterFree.withCounter (fun app is => ?_) _
      cases here.symm.trans is
      rw [SharedValue.counter_application] at counts
      cases counts
    · exact .refl d
  · rename_i gone
    have free : d.CounterFree := fun app is => by cases gone.symm.trans is
    exact (free.alike _).trans ((CounterFree.put d _).withCounter _)

/-- By how much the counter is moved when an application is written. -/
def storedDelta (d : SharedData) (key : Str) (app : Application) : Int32 :=
  Int32.ofNat key.len + Int32.ofNat app.serializedLen -
    Int32.ofNat (key.len + (d.value key).elim 0 SharedValue.len)

/-- Shared data after an application is written without a CAS and its memory
counted, with nobody else about. -/
def stored (d : SharedData) (key : Str) (app : Application) : SharedData :=
  (d.put key (some (.application app))).recounted (d.storedDelta key app)

/-- The update of the counter that goes with it panics. -/
def StoringPanics (d : SharedData) (key : Str) (app : Application) : Prop :=
  (d.put key (some (.application app))).RecountPanics (d.storedDelta key app)

instance (d : SharedData) (key : Str) (app : Application) : Decidable (d.StoringPanics key app) :=
  inferInstanceAs (Decidable (RecountPanics _ _))

theorem stored_alike (d : SharedData) (key : Str) (app : Application) :
    (d.put key (some (.application app))).Alike (d.stored key app) :=
  recounted_alike _ _

end SharedData

section
variable {h : Host} {delta : Int32} {used : UInt64}

/-- Shared data are as stated, and the program has trapped if it panics, and
succeeded if not. -/
def Leaves (h : Host) (d : SharedData) (panics : Prop) {ε : Type} (h' : Host) (r : Option (Except ε Unit)) : Prop :=
  h' = { h with shared := d } ∧ (panics ∧ r = none ∨ ¬panics ∧ r = some (.ok ()))

/-- The write is made, or refused for its CAS. -/
theorem alone_writeSharedMemorySize (cas : Nat) :
    Alone Host.exec (fun h' r => Leaves h (h.shared.withCounter (finalSharedMemorySize used delta))
        (finalSharedMemorySize used delta = none) h' r ∨
      (h' = h ∧ finalSharedMemorySize used delta ≠ none ∧ ∃ e, r = some (.error e)))
      (writeSharedMemorySize delta used cas) h := by
  unfold writeSharedMemorySize
  cases finalSharedMemorySize used delta with
  | none => exact Or.inl ⟨rfl, Or.inl ⟨rfl, rfl⟩⟩
  | some finalSize =>
    refine alone_bind.mpr (alone_call.mpr ?_)
    simp only [Host.exec]
    rcases h.shared.set_cases sharedMemoryCounterKey (some (.memoryCounter finalSize)) (some cas) with put | refused
    · rw [put]
      exact Or.inl ⟨rfl, Or.inr ⟨by simp, rfl⟩⟩
    · rw [refused]
      exact Or.inr ⟨rfl, by simp, _, rfl⟩

theorem alone_updateSharedMemorySize {v : SharedValue} (here : h.shared.value sharedMemoryCounterKey = some v)
    (counts : v.counter = some used) :
    Alone Host.exec (Leaves h (h.shared.withCounter (finalSharedMemorySize used delta))
      (finalSharedMemorySize used delta = none)) (updateSharedMemorySize delta) h := by
  refine alone_bind.mpr (alone_call.mpr ?_)
  simp only [Host.exec]
  match entry : h.shared.entry sharedMemoryCounterKey with
  | none =>
    rw [SharedData.value, SharedData.get_absent entry] at here
    cases here
  | some (value, cas) =>
    rw [SharedData.value, SharedData.get_present entry] at here
    cases here
    rw [SharedData.get_present entry]
    refine after_some.mpr ?_
    dsimp only
    rw [counts]
    show Alone Host.exec _ (writeSharedMemorySize delta used cas) h
    unfold writeSharedMemorySize
    cases finalSharedMemorySize used delta with
    | none => exact ⟨rfl, Or.inl ⟨rfl, rfl⟩⟩
    | some finalSize =>
      refine alone_bind.mpr (alone_call.mpr ?_)
      simp only [Host.exec, SharedData.set_match _ entry]
      exact ⟨rfl, Or.inr ⟨by simp, rfl⟩⟩

/-- Where the counter is read, its first update is the last one. -/
theorem alone_retryCounted {v : SharedValue} (here : h.shared.value sharedMemoryCounterKey = some v)
    (counts : v.counter = some used) (tries : Nat) :
    Alone Host.exec (fun h' r => h' = { h with shared := h.shared.withCounter (finalSharedMemorySize used delta) } ∧
        (r = none ↔ finalSharedMemorySize used delta = none))
      (retryUpdateSharedMemorySize delta (tries + 1)) h := by
  refine alone_bind.mpr ((alone_updateSharedMemorySize here counts).mono fun h' r left => ?_)
  obtain ⟨same, ⟨panics, rfl⟩ | ⟨goesOn, rfl⟩⟩ := left
  · exact ⟨same, iff_of_true rfl panics⟩
  · exact ⟨same, iff_of_false (by simp) goesOn⟩

/-- What is no counter is left alone. -/
theorem alone_retryUncounted {v : SharedValue} (here : h.shared.value sharedMemoryCounterKey = some v)
    (other : v.counter = none) (tries : Nat) :
    Alone Host.exec (fun h' r => h' = h ∧ r ≠ none) (retryUpdateSharedMemorySize delta tries) h := by
  induction tries with
  | zero => exact ⟨rfl, by simp⟩
  | succ tries ih =>
    refine alone_bind.mpr (alone_bind.mpr (alone_call.mpr ?_))
    simp only [Host.exec]
    rcases h.shared.get_cases sharedMemoryCounterKey with ⟨cas, gone⟩ | ⟨v', cas, got⟩
    · rw [SharedData.value, gone] at here
      cases here
    · rw [SharedData.value, got] at here
      cases here
      rw [got]
      refine after_some.mpr ?_
      dsimp only
      rw [other]
      exact ih

theorem alone_retryUpdateSharedMemorySize (delta : Int32) (tries : Nat) (h : Host) :
    Alone Host.exec (fun h' r => h' = { h with shared := h.shared.recounted delta } ∧
        (r = none ↔ h.shared.RecountPanics delta))
      (retryUpdateSharedMemorySize delta (tries + 2)) h := by
  unfold SharedData.recounted
  split
  · rename_i v here
    have from_ : h.shared.countedFrom = v.counter := by rw [SharedData.countedFrom, here]
    split
    · rename_i used counts
      rw [SharedData.recountPanics_iff (from_.trans counts)]
      exact alone_retryCounted here counts _
    · rename_i other
      refine (alone_retryUncounted here other _).mono fun h' r same => ⟨same.1, iff_of_false same.2 ?_⟩
      rintro ⟨used, counts, _⟩
      rw [from_, other] at counts
      cases counts
  · rename_i gone
    have from_ : h.shared.countedFrom = some sharedMemoryInitialSize := by rw [SharedData.countedFrom, gone]
    rw [SharedData.recountPanics_iff from_]
    refine alone_bind.mpr (alone_bind.mpr (alone_call.mpr ?_))
    simp only [Host.exec]
    rcases h.shared.get_cases sharedMemoryCounterKey with ⟨cas, got⟩ | ⟨v, cas, got⟩
    · rw [got]
      show Alone Host.exec _ (setSharedData _ _ none >>= _) h
      refine alone_bind.mpr (alone_call.mpr ?_)
      simp only [Host.exec, h.shared.set_overwrite sharedMemoryCounterKey _ SharedData.no_cas]
      -- The CAS of the first write is taken to be 1; where it is not, the next try reads it.
      refine (alone_writeSharedMemorySize 1).mono fun h' r left => ?_
      rcases left with ⟨rfl, ⟨panics, rfl⟩ | ⟨goesOn, rfl⟩⟩ | ⟨rfl, _, e, rfl⟩
      · exact ⟨rfl, iff_of_true rfl panics⟩
      · exact ⟨rfl, iff_of_false (by simp) goesOn⟩
      · exact alone_retryCounted (h := { h with shared := h.shared.put _ _ }) (h.shared.value_put_self _ _) rfl tries
    · rw [SharedData.value, got] at gone
      cases gone

end

theorem alone_getCachePairSize (key : Str) (h : Host) :
    Alone Host.exec (fun h' r => h' = h ∧ r = some (.ok (key.len + (h.shared.value key).elim 0 SharedValue.len)))
      (getCachePairSize key) h := by
  refine alone_bind.mpr (alone_call.mpr ?_)
  simp only [Host.exec, SharedData.value]
  rcases h.shared.get_cases key with ⟨cas, gone⟩ | ⟨v, cas, here⟩
  · rw [gone]
    exact ⟨rfl, rfl⟩
  · rw [here]
    exact ⟨rfl, rfl⟩

/-- An application written without a CAS is written. -/
theorem alone_setApplicationToCache (key : Str) (app : Application) (h : Host) :
    Alone Host.exec (Leaves h (h.shared.stored key app) (h.shared.StoringPanics key app))
      (setApplicationToCache key app 0) h := by
  have zero : (some 0 : Option Nat).getD 0 = 0 := rfl
  refine alone_bind.mpr ((alone_getCachePairSize key h).mono fun h' r read => ?_)
  obtain ⟨rfl, rfl⟩ := read
  show Alone Host.exec _ (setSharedData _ _ _ >>= _) h'
  refine alone_bind.mpr (alone_call.mpr ?_)
  simp only [Host.exec, h'.shared.set_overwrite key _ zero]
  refine alone_bind.mpr ((alone_retryUpdateSharedMemorySize _ 1 _).mono fun h₂ r counted => ?_)
  cases r with
  | none => exact ⟨counted.1, Or.inl ⟨counted.2.mp rfl, rfl⟩⟩
  | some =>
    have goesOn : ¬h'.shared.StoringPanics key app := fun panics => by cases counted.2.mpr panics
    exact ⟨counted.1, Or.inr ⟨goesOn, rfl⟩⟩

/-- What a verdict leaves in the cache, where the check is made without a CAS. -/
def Verdict.filed (key : Str) (d : SharedData) : Verdict → SharedData
  | .pass app _ => d.stored key app
  | .limited .. | .overflow | .trap => d

/-- The check or the write after it panics. -/
def Verdict.Panics (key : Str) (d : SharedData) : Verdict → Prop
  | .pass app _ => d.StoringPanics key app
  | .trap => True
  | .limited .. | .overflow => False

def Verdict.overflows : Verdict → Prop
  | .overflow => True
  | .pass .. | .limited .. | .trap => False

theorem Verdict.filed_of_overflows {verdict : Verdict} (key : Str) (d : SharedData)
    (full : verdict.overflows) : verdict.filed key d = d := by
  cases verdict with
  | overflow => rfl
  | pass | limited | trap => exact full.elim

/-- The first check of an application that is not cached yet. -/
theorem alone_limitCheckAndUpdate (data : ThreescaleData) (app : Application) (now : Duration) (h : Host) :
    Alone Host.exec (fun h' r =>
        h'.shared = (limitCheck now data.metrics.entries app {}).filed app.cacheKey.asString h.shared ∧
          ((∃ e, r = some (.error e)) ↔ (limitCheck now data.metrics.entries app {}).overflows) ∧
          (∀ e, r = some (.error e) → e = .durationOverflow) ∧
          (r = none ↔ (limitCheck now data.metrics.entries app {}).Panics app.cacheKey.asString h.shared))
      (limitCheckAndUpdateApplication data app 0 now) h := by
  unfold limitCheckAndUpdateApplication
  cases verdict : limitCheck now data.metrics.entries app {} with
  | trap => exact ⟨rfl, by simp [Verdict.overflows], by simp, iff_of_true rfl trivial⟩
  | overflow =>
    refine ⟨rfl, iff_of_true ⟨_, rfl⟩ trivial, ?_, by simp [Verdict.Panics]⟩
    rintro e ⟨⟩
    rfl
  | limited app' info => exact ⟨rfl, by simp [Verdict.overflows], by simp, by simp [Verdict.Panics]⟩
  | pass app' info =>
    dsimp only
    rw [limitCheck_pass_cacheKey verdict]
    refine alone_bind.mpr ((alone_setApplicationToCache _ app' h).mono fun h' r set => ?_)
    obtain ⟨rfl, ⟨panics, rfl⟩ | ⟨goesOn, rfl⟩⟩ := set
    · exact ⟨rfl, by simp [Verdict.overflows], by simp, iff_of_true rfl panics⟩
    · exact ⟨rfl, by simp [Verdict.overflows], by simp, iff_of_false (by simp) goesOn⟩

/-- The cache hit flow has returned with an error. -/
def GaveUp (r : Option (CacheFilter × Except CacheHitError Unit)) : Prop := ∃ f e, r = some (f, .error e)

theorem not_gaveUp_ok (f : CacheFilter) : ¬GaveUp (some (f, .ok ())) := by
  rintro ⟨_, _, ⟨⟩⟩

theorem not_gaveUp_none : ¬GaveUp none := by
  rintro ⟨_, _, ⟨⟩⟩

theorem alone_onAuthorizedTry (f : CacheFilter) (queueId : Nat) (now : Duration) (cas : Nat)
    (info : RateLimitInfo) (h : Host) :
    Alone Host.exec (fun h' r => h'.shared = h.shared ∧ ¬GaveUp r ∧ r ≠ none)
      (f.onAuthorizedTry queueId now cas info) h := by
  have counted : Alone Host.exec (fun h' r => h'.shared = h.shared ∧ r = some ())
      (onlyIf (cas = 0) (incrementStat .cachedApps)) h := by
    unfold onlyIf
    split
    · exact ⟨rfl, rfl⟩
    · exact ⟨rfl, rfl⟩
  refine alone_bind.mpr (counted.mono fun h' r same => ?_)
  obtain ⟨same, rfl⟩ := same
  exact ⟨same, not_gaveUp_ok _, by simp⟩

/-- The tries for an application that is not cached yet: the first one, if
any, settles the request. -/
theorem alone_cacheHitTries (queueId : Nat) (now : Duration) (tries : Nat) (f : CacheFilter)
    (app : Application) (h : Host) :
    Alone Host.exec (fun h' r =>
        (h'.shared = if tries = 0 then h.shared
          else (limitCheck now f.state.reqData.metrics.entries app {}).filed app.cacheKey.asString h.shared) ∧
          (GaveUp r ↔ tries ≠ 0 ∧ (limitCheck now f.state.reqData.metrics.entries app {}).overflows) ∧
          (r = none ↔ tries ≠ 0 ∧
            (limitCheck now f.state.reqData.metrics.entries app {}).Panics app.cacheKey.asString h.shared))
      (CacheFilter.cacheHitTries queueId now tries f app 0) h := by
  cases tries with
  | zero =>
    exact ⟨rfl, iff_of_false (not_gaveUp_ok _) fun tried => tried.1 rfl,
      iff_of_false (by simp) fun tried => tried.1 rfl⟩
  | succ tries =>
    simp only [Nat.succ_ne_zero, if_false, ne_eq, not_false_eq_true, true_and]
    refine alone_bind.mpr ((alone_limitCheckAndUpdate f.state.reqData app now h).mono fun h₁ r checked => ?_)
    obtain ⟨left, errs, overflow, panics⟩ := checked
    match r with
    | none =>
      exact ⟨left, iff_of_false not_gaveUp_none fun full => by simpa using errs.mpr full,
        iff_of_true rfl (panics.mp rfl)⟩
    | some (.ok (.authorized info)) =>
      refine after_some.mpr ((alone_onAuthorizedTry f queueId now 0 info h₁).mono fun h₂ r last => ?_)
      exact ⟨last.1.trans left, iff_of_false last.2.1 fun full => by simpa using errs.mpr full,
        iff_of_false last.2.2 fun traps => by simpa using panics.mpr traps⟩
    | some (.ok (.rateLimited info)) =>
      exact ⟨left, iff_of_false (not_gaveUp_ok _) fun full => by simpa using errs.mpr full,
        iff_of_false (by simp) fun traps => by simpa using panics.mpr traps⟩
    | some (.error e) =>
      cases overflow e rfl
      exact ⟨left, iff_of_true ⟨_, _, rfl⟩ (errs.mp ⟨_, rfl⟩),
        iff_of_false (by simp) fun traps => by simpa using panics.mpr traps⟩

/-- What the cache hit flow stores for an application that it is first to cache. -/
def CacheFilter.filedFirst (f : CacheFilter) (h : Host) (app : Application) : SharedData :=
  match h.queueIds queueName, h.clock with
  | some _, some now =>
    if (addHierarchyToMetrics app.metricHierarchy f.state.reqData.metrics).isNone ∨ f.config.maxTries = 0 then
      h.shared
    else (limitCheck now f.state.reqData.metrics.entries app {}).filed app.cacheKey.asString h.shared
  | _, _ => h.shared

/-- When it fails on such an application. -/
def CacheFilter.FailsFirst (f : CacheFilter) (h : Host) (app : Application) : Prop :=
  match h.queueIds queueName, h.clock with
  | some _, some now =>
    (addHierarchyToMetrics app.metricHierarchy f.state.reqData.metrics).isSome ∧ f.config.maxTries ≠ 0 ∧
      (limitCheck now f.state.reqData.metrics.entries app {}).overflows
  | _, _ => True

/-- When it panics on it. -/
def CacheFilter.PanicsFirst (f : CacheFilter) (h : Host) (app : Application) : Prop :=
  match h.queueIds queueName, h.clock with
  | some _, some now =>
    (addHierarchyToMetrics app.metricHierarchy f.state.reqData.metrics).isNone ∨ f.config.maxTries ≠ 0 ∧
      (limitCheck now f.state.reqData.metrics.entries app {}).Panics app.cacheKey.asString h.shared
  | _, _ => False

/-- Of the context only the tries and the metrics count. -/
theorem alone_handleCacheHit (f : CacheFilter) {f' : CacheFilter} (config : f'.config = f.config)
    (metrics : f'.state.reqData.metrics = f.state.reqData.metrics) (app : Application) (h : Host) :
    Alone Host.exec (fun h' r => h'.shared = f.filedFirst h app ∧ (GaveUp r ↔ f.FailsFirst h app) ∧
        (r = none ↔ f.PanicsFirst h app))
      (f'.handleCacheHit app 0) h := by
  rw [handleCacheHit_eq]
  refine alone_call.mpr (alone_call.mpr ?_)
  unfold CacheFilter.filedFirst CacheFilter.FailsFirst CacheFilter.PanicsFirst
  rw [← config, ← metrics]
  simp only [Host.exec]
  cases h.queueIds queueName with
  | none => exact ⟨rfl, iff_of_true ⟨_, _, rfl⟩ trivial, by simp⟩
  | some queueId =>
    refine alone_call.mpr ?_
    simp only [Host.exec]
    cases h.clock with
    | none => exact ⟨rfl, iff_of_true ⟨_, _, rfl⟩ trivial, by simp⟩
    | some now =>
      dsimp only
      cases addHierarchyToMetrics app.metricHierarchy f'.state.reqData.metrics with
      | none => exact ⟨rfl, iff_of_false not_gaveUp_none (by simp), by simp⟩
      | some metrics =>
        refine (alone_cacheHitTries queueId now f'.config.maxTries f' app _).mono fun h' r tried => ?_
        simpa using tried

end ThreescaleCache
