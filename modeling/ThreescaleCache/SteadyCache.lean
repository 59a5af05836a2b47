import Mathlib.Order.BooleanAlgebra.Set
import ThreescaleCache.FirstWrite
import ThreescaleCache.Interaction.Triples
import ThreescaleCache.LoneRuns
import ThreescaleCache.SingletonRoot

namespace ThreescaleCache
open Interaction

/-! The applications in the cache and the gauge beside them, in callbacks that
add no application and take none away, but where it is misread for a lock. -/

namespace SharedData

/-- The keys that hold an application. -/
def applications (d : SharedData) : Set Str := {key | ∃ app, d.value key = some (.application app)}

theorem applications_put (d : SharedData) (key : Str) (app : Application) :
    (d.put key (some (.application app))).applications = insert key d.applications := by
  ext other
  by_cases same : other = key
  · subst same
    exact iff_of_true ⟨app, d.value_put_self other _⟩ (Or.inl rfl)
  · simp only [applications, Set.mem_ofPred_eq, d.value_put_ne _ same, Set.mem_insert_iff, same, false_or]

theorem applications_put_other (d : SharedData) (key : Str) {value : Option SharedValue}
    (other : ∀ app, value ≠ some (.application app)) :
    (d.put key value).applications = d.applications \ {key} := by
  ext k
  by_cases same : k = key
  · subst same
    refine iff_of_false ?_ fun member => member.2 rfl
    rintro ⟨app, held⟩
    rw [value_put_self] at held
    exact other app held
  · simp only [applications, Set.mem_ofPred_eq, d.value_put_ne _ same, Set.mem_sdiff, Set.mem_singleton_iff, same,
      not_false_eq_true, and_true]

theorem Alike.applications {d d' : SharedData} (alike : d.Alike d') : d'.applications = d.applications := by
  ext key
  exact exists_congr (alike.application key)

/-- An application is stored under the key that is read as a callout-lock. -/
def Misread (d : SharedData) (key : Str) : Prop :=
  ∃ app, d.value key = some (.application app) ∧ (SharedValue.application app).lock.isSome

/-- The keys of locks that are misread. -/
def misreadAt (d : SharedData) (key : Str) : Set Str := {k | k = key ∧ d.Misread key}

theorem misreadAt_of_misread {d : SharedData} {key : Str} (misread : d.Misread key) : d.misreadAt key = {key} := by
  simp [misreadAt, misread]

theorem misreadAt_of_not {d : SharedData} {key : Str} (read : ¬d.Misread key) : d.misreadAt key = ∅ := by
  simp [misreadAt, read]

theorem entry_of_get {d : SharedData} {key : Str} {value : Option SharedValue} {cas : Nat}
    (here : d.get key = (value, some cas)) : d.entry key = some (value, cas) := by
  unfold get at here
  split at here
  · cases here
  · rename_i entry
    cases here
    exact entry

theorem filed_iff {d : SharedData} :
    Filed d ↔ ∀ key app, d.value key = some (.application app) → app.cacheKey.asString = key := by
  constructor
  · intro filed key app held
    rcases d.get_cases key with ⟨cas, gone⟩ | ⟨v, cas, here⟩
    · rw [value, gone] at held
      cases held
    · rw [value, here] at held
      cases held
      exact filed key app cas (entry_of_get here)
  · intro own key app cas entry
    refine own key app ?_
    rw [value, get_present entry]

end SharedData

/-- The keys that hold an application, each under its own key, and the gauge of
the cached applications. -/
structure Holding (keys : Set Str) (count : Int) (h : Host) : Prop where
  applications : h.shared.applications = keys
  gauge : h.metrics .cachedApps = count
  filed : Filed h.shared

namespace Holding
variable {keys : Set Str} {count : Int} {h h' : Host} {key : Str}

theorem put (holding : Holding keys count h) {app : Application} (own : app.cacheKey.asString = key) :
    Holding (insert key keys) count { h with shared := h.shared.put key (some (.application app)) } := by
  refine ⟨by rw [← holding.applications]; exact h.shared.applications_put key app, holding.gauge, ?_⟩
  refine holding.filed.put ?_
  rintro _ ⟨⟩
  exact own

theorem put_other (holding : Holding keys count h) (key : Str) {value : Option SharedValue}
    (other : ∀ app, value ≠ some (.application app)) :
    Holding (keys \ {key}) count { h with shared := h.shared.put key value } := by
  refine ⟨by rw [← holding.applications]; exact h.shared.applications_put_other key other, holding.gauge, ?_⟩
  exact holding.filed.put fun app is => absurd is (other app)

/-- A write of something else where there is no application. -/
theorem put_vacant (holding : Holding keys count h) {value : Option SharedValue} (vacant : key ∉ keys)
    (other : ∀ app, value ≠ some (.application app)) :
    Holding keys count { h with shared := h.shared.put key value } := by
  have put := holding.put_other key other
  rwa [Set.sdiff_singleton_eq_self vacant] at put

theorem notMem (holding : Holding keys count h) (other : ∀ app, h.shared.value key ≠ some (.application app)) :
    key ∉ keys := by
  rw [← holding.applications]
  rintro ⟨app, held⟩
  exact other app held

/-- A value that was read as a lock, or was none, is written over. -/
theorem put_lock (holding : Holding keys count h)
    (read : ∀ app, h.shared.value key = some (.application app) → (SharedValue.application app).lock.isSome)
    {value : Option SharedValue} (other : ∀ app, value ≠ some (.application app)) :
    Holding (keys \ h.shared.misreadAt key) count { h with shared := h.shared.put key value } := by
  by_cases misread : h.shared.Misread key
  · rw [SharedData.misreadAt_of_misread misread]
    exact holding.put_other key other
  · rw [SharedData.misreadAt_of_not misread, Set.sdiff_empty]
    exact holding.put_vacant (holding.notMem fun app held => misread ⟨app, held, read app held⟩) other

/-- What is not read as a lock is kept. -/
theorem kept_lock (holding : Holding keys count h) (read : ¬h.shared.Misread key) :
    Holding (keys \ h.shared.misreadAt key) count h := by
  rwa [SharedData.misreadAt_of_not read, Set.sdiff_empty]

theorem alike (holding : Holding keys count h) {d : SharedData} (alike : h.shared.Alike d) :
    Holding keys count { h with shared := d } := by
  refine ⟨alike.applications.trans holding.applications, holding.gauge, ?_⟩
  rw [SharedData.filed_iff]
  intro key app held
  exact SharedData.filed_iff.mp holding.filed key app ((alike.application key app).mp held)

end Holding

/-! Programs that keep the applications and the gauge -/

/-- Neither a write of shared data nor one of the gauge. -/
def Harmless : HostCall → Prop
  | .setSharedData .. => False
  | .incrementMetric stat _ => stat ≠ .cachedApps
  | _ => True

theorem Holding.exec {keys : Set Str} {count : Int} {h : Host} {c : HostCall} (holding : Holding keys count h)
    (harmless : Harmless c) : Holding keys count (Host.exec c h).2 := by
  cases c with
  | setSharedData => exact harmless.elim
  | incrementMetric stat delta =>
    exact ⟨holding.applications, (Function.update_of_ne (Ne.symm harmless) _ _).trans holding.gauge, holding.filed⟩
  | _ => exact ⟨holding.applications, holding.gauge, holding.filed⟩

/-- Whatever applications there are, they and the gauge are kept. -/
def Calm {α : Type} (p : HostProg α) : Prop :=
  ∀ keys count, Triple Host.exec (Holding keys count) p fun _ => Holding keys count

theorem calm_bind {α β : Type} {p : HostProg α} {f : α → HostProg β} (first : Calm p) (rest : ∀ a, Calm (f a)) :
    Calm (p >>= f) :=
  fun keys count => triple_bind (first keys count) fun a => rest a keys count

theorem calm_done {α : Type} (a : α) : Calm (.done a) := fun _ _ => triple_done fun _ holding => holding

theorem calm_only {α : Type} {p : HostProg α} (only : p.Only Harmless) : Calm p :=
  fun _ _ => triple_only only fun _ _ harmless holding => holding.exec harmless

theorem calm_ask (c : HostCall) (harmless : Harmless c) : Calm (ask c) := calm_only ⟨harmless, fun _ => trivial⟩

theorem harmless_failureCall {c : HostCall} (failure : FailureCall c) : Harmless c := by
  cases failure <;> trivial

theorem calm_incrementStat {stat : Stat} (other : stat ≠ .cachedApps) : Calm (incrementStat stat) :=
  calm_ask (.incrementMetric stat 1) other

theorem calm_inRequestFailure (f : CacheFilter) : Calm f.inRequestFailure :=
  calm_only ((only_inRequestFailure f).mono fun _ => harmless_failureCall)

theorem calm_requestProcessFailure (f : CacheFilter) : Calm f.requestProcessFailure :=
  calm_only ((only_requestProcessFailure f).mono fun _ => harmless_failureCall)

theorem calm_doAuthCall (lib : ThirdParty) (f : CacheFilter) : Calm (f.doAuthCall lib) := by
  unfold CacheFilter.doAuthCall
  split
  · exact calm_inRequestFailure f
  · refine calm_bind (calm_only ⟨trivial, fun _ => trivial⟩) fun reply => ?_
    cases reply with
    | ok => exact calm_done _
    | error => exact calm_inRequestFailure f

theorem calm_retryUpdateSharedMemorySize (delta : Int32) (tries : Nat) :
    Calm (retryUpdateSharedMemorySize delta (tries + 2)) := by
  intro keys count h holding
  refine (alone_retryUpdateSharedMemorySize delta tries h).mono fun _ _ counted _ _ => ?_
  rw [counted.1]
  exact holding.alike (h.shared.recounted_alike delta)

/-! Reads of shared data, and the callout-locks -/

section
variable {keys : Set Str} {count : Int}

/-- The state is as it was, but for the metrics of the calls. -/
structure Resting (keys : Set Str) (count : Int) (h h' : Host) : Prop where
  holding : Holding keys count h'
  shared : h'.shared = h.shared
  queueIds : h'.queueIds = h.queueIds

theorem Resting.start {h : Host} (holding : Holding keys count h) : Resting keys count h h := ⟨holding, rfl, rfl⟩

theorem resting_only {α : Type} {p : HostProg α} (only : p.Only Harmless) (h : Host) :
    Triple Host.exec (Resting keys count h) p fun _ => Resting keys count h := by
  refine triple_only only fun c s harmless resting => ⟨resting.holding.exec harmless, ?_, ?_⟩
  · cases c with
    | setSharedData => exact harmless.elim
    | _ => exact resting.shared
  · cases c with
    | setSharedData => exact harmless.elim
    | _ => exact resting.queueIds

/-- What is found has its own key, and a CAS other than zero. -/
theorem resting_getApplicationFromCache (key : CacheKey) (h : Host) :
    Triple Host.exec (Resting keys count h) (getApplicationFromCache key) fun r h' => Resting keys count h h' ∧
      (∀ app cas, r = .ok (app, cas) → h.shared.applicationAt key = some app ∧ app.cacheKey.asString ∈ keys ∧ cas ≠ 0) ∧
      ∀ e, r = .error e → h.shared.applicationAt key = none := by
  intro h' resting
  simp only [← resting.shared, SharedData.applicationAt_eq_some, Option.eq_none_iff_forall_ne_some, ne_eq]
  unfold getApplicationFromCache
  refine alone_perform_bind.mpr ?_
  simp only [Host.exec]
  rcases h'.shared.get_cases key.asString with ⟨cas, gone⟩ | ⟨v, cas, here⟩
  · have none_ : h'.shared.value key.asString = none := congrArg Prod.fst gone
    rw [gone]
    rintro _ ⟨⟩
    exact ⟨resting, by rintro _ _ ⟨⟩, fun _ _ app held => by rw [none_] at held; cases held⟩
  · have value : h'.shared.value key.asString = some v := congrArg Prod.fst here
    rw [here]
    cases v with
    | application app =>
      rintro _ ⟨⟩
      refine ⟨resting, ?_, by rintro _ ⟨⟩⟩
      rintro _ _ ⟨⟩
      have own := SharedData.filed_iff.mp resting.holding.filed _ _ value
      have positive := (h'.shared.casBound _ _ _ (SharedData.entry_of_get here)).1
      refine ⟨value, ?_, Nat.pos_iff_ne_zero.mp positive⟩
      rw [own, ← resting.holding.applications]
      exact ⟨app, value⟩
    | appId | calloutLock | memoryCounter =>
      rintro _ ⟨⟩
      exact ⟨resting, by rintro _ _ ⟨⟩, fun _ _ app held => by rw [value] at held; cases held⟩

theorem triple_getApplicationFromCache (key : CacheKey) :
    Triple Host.exec (Holding keys count) (getApplicationFromCache key) fun r h => Holding keys count h ∧
      ∀ app cas, r = .ok (app, cas) → app.cacheKey.asString ∈ keys ∧ cas ≠ 0 := by
  intro h holding
  refine (resting_getApplicationFromCache key h h (.start holding)).mono fun h' r read a is => ?_
  obtain ⟨resting, found, _⟩ := read a is
  exact ⟨resting.holding, fun app cas is => (found app cas is).2⟩

theorem resting_getAppIdFromCache (userKey : UserKey) (h : Host) :
    Triple Host.exec (Resting keys count h) (getAppIdFromCache userKey) fun r h' => Resting keys count h h' ∧
      ∀ id, r = .ok id ↔ h.shared.appIdAt userKey = some id := by
  intro h' resting
  rw [getAppIdFromCache_eq]
  refine alone_perform_bind.mpr ?_
  simp only [Host.exec]
  rintro _ ⟨⟩
  refine ⟨resting, fun id => ?_⟩
  rw [← resting.shared, appIdRead_eq_ok, SharedData.appIdAt, SharedData.value]
  rcases h'.shared.get_cases userKey with ⟨cas, gone⟩ | ⟨v, cas, here⟩
  · simp [gone]
  · simp [here]

/-- Alone, the first round settles the lock: an application that is read as one
is written over. -/
theorem resting_setCalloutLockLoop (context : CacheFilter) (key : Str) (waiter : CalloutWaiter) (rounds : Nat)
    (h : Host) :
    Triple Host.exec (Resting keys count h) (setCalloutLockLoop context key waiter rounds none) fun r h' =>
      Holding (keys \ h.shared.misreadAt key) count h' ∧ r ≠ .ok .responseCameFirst := by
  cases rounds with
  | zero => exact triple_spin
  | succ rounds =>
    rintro h' ⟨holding, same, _⟩
    rw [← same]
    unfold setCalloutLockLoop
    refine alone_perform_bind.mpr ?_
    simp only [Host.exec]
    cases entry : h'.shared.entry key with
    | none =>
      have none_ : h'.shared.value key = none := congrArg Prod.fst (SharedData.get_absent entry)
      rw [SharedData.get_absent entry]
      refine alone_perform_bind.mpr ?_
      simp only [Host.exec, SharedData.set_absent _ _ entry]
      rintro _ ⟨⟩
      exact ⟨holding.put_lock (fun app held => by rw [none_] at held; cases held) (by simp), by simp⟩
    | some pair =>
      obtain ⟨value, cas⟩ := pair
      have here : h'.shared.value key = value := congrArg Prod.fst (SharedData.get_present entry)
      rw [SharedData.get_present entry]
      cases value with
      | none =>
        refine alone_perform_bind.mpr ?_
        simp only [Host.exec, SharedData.set_match _ entry]
        rintro _ ⟨⟩
        exact ⟨holding.put_lock (fun app held => by rw [here] at held; cases held) (by simp), by simp⟩
      | some v =>
        refine after_some.mpr ?_
        dsimp only
        cases read : v.lock with
        | none =>
          rintro _ ⟨⟩
          refine ⟨holding.kept_lock ?_, by simp⟩
          rintro ⟨app, held, reads⟩
          cases Option.some.inj (here.symm.trans held)
          rw [read] at reads
          cases reads
        | some stored =>
          refine alone_perform_bind.mpr ?_
          simp only [Host.exec, SharedData.set_match _ entry]
          let longer : CalloutLockValue := { stored with waiters := stored.waiters ++ [waiter] }
          have written : Holding (keys \ h'.shared.misreadAt key) count
              { h' with shared := h'.shared.put key (some (.calloutLock longer)) } := by
            refine holding.put_lock (fun app held => ?_) (by simp)
            cases Option.some.inj (here.symm.trans held)
            rw [read]
            rfl
          rintro _ ⟨⟩
          exact ⟨written.exec (c := .insertWaitingContext context) trivial, by simp⟩

/-- The lock that a context asks for, if any does, where an application is misread for it. -/
def askedMisread (asks : Option CacheFilter) (h : Host) : Set Str :=
  {key | ∃ f ∈ asks, (h.queueIds (threadQueueName f.rootId)).isSome ∧ key ∈ h.shared.misreadAt (lockKey f)}

theorem askedMisread_none (h : Host) : askedMisread none h = ∅ := by
  simp [askedMisread]

theorem askedMisread_some (f : CacheFilter) (h : Host) : askedMisread (some f) h =
    {key | (h.queueIds (threadQueueName f.rootId)).isSome ∧ key ∈ h.shared.misreadAt (lockKey f)} := by
  simp [askedMisread]

theorem resting_setCalloutLock (rounds : Nat) (f : CacheFilter) (h : Host) :
    Triple Host.exec (Resting keys count h) (setCalloutLock rounds f) fun r h' =>
      Holding (keys \ askedMisread (some f) h) count h' ∧ r ≠ .ok .responseCameFirst := by
  intro h' resting
  rw [askedMisread_some]
  unfold setCalloutLock
  refine alone_perform_bind.mpr ?_
  simp only [Host.exec, resting.queueIds]
  cases h.queueIds (threadQueueName f.rootId) with
  | none =>
    rintro _ ⟨⟩
    simpa using resting.holding
  | some queueId =>
    refine (resting_setCalloutLockLoop f (lockKey f) _ rounds h h' resting).mono fun h₂ r held a is => ?_
    simpa using held a is

theorem resting_notifyWaiters (action : WaiterAction) (waiters : List CalloutWaiter) (h : Host) :
    Triple Host.exec (Resting keys count h) (notifyWaiters action waiters) fun _ => Resting keys count h := by
  induction waiters with
  | nil => exact triple_done fun _ resting => resting
  | cons waiter rest ih =>
    let item : QueueItem := .waiterAction (action.withContext waiter.httpContextId)
    have told : (ask (.enqueueSharedQueue waiter.queueId item)).Only Harmless := ⟨trivial, fun _ => trivial⟩
    exact triple_bind (resting_only told h) fun _ => ih

/-- What is read as the lock is erased. -/
theorem resting_freeCalloutLock (cacheKey : CacheKey) (action : WaiterAction) (h : Host) :
    Triple Host.exec (Resting keys count h) (freeCalloutLockAndNotifyWaiters cacheKey action) fun _ =>
      Holding (keys \ h.shared.misreadAt (calloutLockKey cacheKey)) count := by
  rintro h' ⟨holding, same, _⟩
  rw [← same]
  unfold freeCalloutLockAndNotifyWaiters
  refine alone_perform_bind.mpr ?_
  simp only [Host.exec]
  rcases h'.shared.get_cases (calloutLockKey cacheKey) with ⟨cas, gone⟩ | ⟨v, cas, here⟩
  · have none_ : h'.shared.value (calloutLockKey cacheKey) = none := congrArg Prod.fst gone
    rw [gone]
    rintro _ ⟨⟩
    refine holding.kept_lock ?_
    rintro ⟨app, held, _⟩
    cases none_.symm.trans held
  · have value : h'.shared.value (calloutLockKey cacheKey) = some v := congrArg Prod.fst here
    rw [here]
    refine after_some.mpr ?_
    dsimp only
    cases read : v.lock with
    | none =>
      rintro _ ⟨⟩
      refine holding.kept_lock ?_
      rintro ⟨app, held, reads⟩
      cases Option.some.inj (value.symm.trans held)
      rw [read] at reads
      cases reads
    | some lock =>
      refine triple_bind (resting_notifyWaiters action lock.waiters h') (fun _ => ?_) h' (.start holding)
      rintro h₂ ⟨later, same, _⟩
      refine alone_perform_bind.mpr ?_
      simp only [Host.exec, h₂.shared.set_overwrite _ _ SharedData.no_cas]
      rintro _ ⟨⟩
      rw [← same] at value ⊢
      refine later.put_lock (fun app held => ?_) (by simp)
      cases Option.some.inj (value.symm.trans held)
      rw [read]
      rfl

end

/-! The cache hit flow -/

section
variable {keys : Set Str} {count : Int} {app : Application} {cas : Nat}

/-- After a write of an application with this CAS: it is there, or a mismatch
has kept what was there. -/
def Written {ε : Type} (keys : Set Str) (count : Int) (key : Str) (cas : Nat) : Except ε Unit → Host → Prop
  | .ok (), h => Holding (insert key keys) count h
  | .error _, h => cas ≠ 0 ∧ Holding keys count h

theorem triple_getCachePairSize (key : Str) :
    Triple Host.exec (Holding keys count) (getCachePairSize key) fun r h =>
      Holding keys count h ∧ ∃ size, r = .ok size := by
  intro h holding
  refine (alone_getCachePairSize key h).mono fun h' r read => ?_
  obtain ⟨rfl, rfl⟩ := read
  rintro _ ⟨⟩
  exact ⟨holding, _, rfl⟩

theorem triple_setApplicationToCache (app : Application) (cas : Nat) :
    Triple Host.exec (Holding keys count) (setApplicationToCache app.cacheKey.asString app cas)
      (Written keys count app.cacheKey.asString cas) := by
  have set : Triple Host.exec (Holding keys count)
      (setSharedData app.cacheKey.asString (some (.application app)) (some cas))
      (Written keys count app.cacheKey.asString cas) := by
    rintro h holding _ ⟨⟩
    by_cases zero : cas = 0
    · subst zero
      simp only [Host.exec, h.shared.set_overwrite _ _ (rfl : (some 0).getD 0 = 0)]
      exact holding.put rfl
    · rcases h.shared.set_cases app.cacheKey.asString (some (.application app)) (some cas) with put | refused
      · simp only [Host.exec, put]
        exact holding.put rfl
      · simp only [Host.exec, refused]
        exact ⟨zero, holding⟩
  refine triple_bind (triple_getCachePairSize _) fun size => triple_given fun read => ?_
  obtain ⟨previous, rfl⟩ := read
  refine triple_bind set fun r => ?_
  cases r with
  | error e => exact triple_done fun _ kept => kept
  | ok => exact triple_bind (calm_retryUpdateSharedMemorySize _ 1 _ count) fun _ => triple_done fun _ held => held

def Verdict.passes : Verdict → Prop
  | .pass .. => True
  | .limited .. | .overflow | .trap => False

/-- After a check with this verdict. -/
def CheckLeaves (keys : Set Str) (count : Int) (key : Str) (cas : Nat) (verdict : Verdict) :
    Except UpdateMetricsError RateLimitStatus → Host → Prop
  | .ok (.authorized _), h => verdict.passes ∧ Holding (insert key keys) count h
  | .error (.cacheUpdateFail _), h => cas ≠ 0 ∧ Holding keys count h
  | .ok (.rateLimited _), h | .error .durationOverflow, h => ¬verdict.passes ∧ Holding keys count h

theorem triple_limitCheckAndUpdate (data : ThreescaleData) (app : Application) (cas : Nat) (now : Duration) :
    Triple Host.exec (Holding keys count) (limitCheckAndUpdateApplication data app cas now)
      (CheckLeaves keys count app.cacheKey.asString cas (limitCheck now data.metrics.entries app {})) := by
  unfold limitCheckAndUpdateApplication
  cases verdict : limitCheck now data.metrics.entries app {} with
  | trap => exact triple_trap
  | overflow | limited =>
    rintro h holding _ ⟨⟩
    exact ⟨id, holding⟩
  | pass app' info =>
    dsimp only
    rw [← limitCheck_pass_cacheKey verdict]
    refine triple_bind (triple_setApplicationToCache app' cas) fun r => ?_
    cases r with
    | error e =>
      rintro h kept _ ⟨⟩
      exact kept
    | ok =>
      rintro h held _ ⟨⟩
      exact ⟨trivial, held⟩

theorem triple_onAuthorizedTry (keys : Set Str) (count : Int) (f : CacheFilter) (queueId : Nat) (now : Duration)
    (cas : Nat) (info : RateLimitInfo) :
    Triple Host.exec (Holding keys count) (f.onAuthorizedTry queueId now cas info)
      fun _ => Holding keys (if cas = 0 then count + 1 else count) := by
  have counted : Triple Host.exec (Holding keys count) (onlyIf (cas = 0) (incrementStat .cachedApps))
      fun _ => Holding keys (if cas = 0 then count + 1 else count) := by
    unfold onlyIf
    split
    · rintro h holding _ ⟨⟩
      refine ⟨holding.applications, ?_, holding.filed⟩
      rw [← holding.gauge]
      exact Function.update_self Stat.cachedApps _ h.metrics
    · exact triple_done fun _ holding => holding
  refine triple_bind counted fun _ => ?_
  have reports : Calm ((f.withRateLimitInfo info).reportToSingleton queueId now) := by
    refine calm_only ⟨trivial, fun r => ?_⟩
    cases r <;> trivial
  exact triple_bind (reports _ _) fun _ => triple_bind (calm_ask .resumeHttpRequest trivial _ _) fun _ =>
    calm_done _ _ _

/-- The check of an application that was found in the cache. -/
theorem triple_limitCheck_found (data : ThreescaleData) (now : Duration) (cached : app.cacheKey.asString ∈ keys) :
    Triple Host.exec (Holding keys count) (limitCheckAndUpdateApplication data app cas now)
      fun _ => Holding keys count := by
  refine (triple_limitCheckAndUpdate data app cas now).mono (fun _ holding => holding) fun r h left => ?_
  match r with
  | .ok (.authorized _) =>
    have held := left.2
    rwa [Set.insert_eq_of_mem cached] at held
  | .ok (.rateLimited _) | .error (.cacheUpdateFail _) | .error .durationOverflow => exact left.2

theorem triple_cacheHitTries_found (queueId : Nat) (now : Duration) (tries : Nat) (f : CacheFilter)
    (cached : app.cacheKey.asString ∈ keys) (positive : cas ≠ 0) :
    Triple Host.exec (Holding keys count) (CacheFilter.cacheHitTries queueId now tries f app cas)
      fun _ => Holding keys count := by
  induction tries generalizing app cas with
  | zero =>
    have last : Calm f.afterLastTry := calm_only ⟨trivial, fun _ => trivial⟩
    exact last keys count
  | succ tries ih =>
    refine triple_bind (triple_limitCheck_found f.state.reqData now cached) fun r => ?_
    match r with
    | .ok (.authorized info) =>
      have authorized := triple_onAuthorizedTry keys count f queueId now cas info
      rwa [if_neg positive] at authorized
    | .ok (.rateLimited info) =>
      have limited : Calm (f.onRateLimitedTry info) := calm_only ⟨trivial, fun _ => trivial⟩
      exact limited keys count
    | .error (.cacheUpdateFail reason) =>
      refine triple_bind (triple_getApplicationFromCache f.state.cacheKey) fun found => triple_given fun cached => ?_
      match found with
      | .ok (app, cas) =>
        obtain ⟨member, positive⟩ := cached app cas rfl
        exact ih member positive
      | .error e => exact calm_done _ _ _
    | .error .durationOverflow => exact calm_done _ _ _

theorem triple_handleCacheHit_found (f : CacheFilter) (cached : app.cacheKey.asString ∈ keys) (positive : cas ≠ 0) :
    Triple Host.exec (Holding keys count) (f.handleCacheHit app cas) fun _ => Holding keys count := by
  rw [handleCacheHit_eq]
  refine triple_bind (calm_incrementStat (by decide) keys count) fun _ => ?_
  refine triple_bind (calm_ask (.resolveSharedQueue queueName) trivial keys count) fun queue => ?_
  cases queue with
  | none => exact calm_done _ _ _
  | some queueId =>
    refine triple_bind (calm_ask .getCurrentTime trivial keys count) fun now => ?_
    cases now with
    | none => exact calm_done _ _ _
    | some now =>
      dsimp only
      cases addHierarchyToMetrics app.metricHierarchy f.state.reqData.metrics with
      | none => exact triple_trap
      | some metrics => exact triple_cacheHitTries_found queueId now f.config.maxTries f cached positive

theorem triple_cacheHitOrFail_found (f : CacheFilter) (cached : app.cacheKey.asString ∈ keys) (positive : cas ≠ 0) :
    Triple Host.exec (Holding keys count) (f.cacheHitOrFail app cas) fun _ => Holding keys count := by
  refine triple_bind (triple_handleCacheHit_found f cached positive) fun hit => ?_
  match hit with
  | (f, .ok ()) => exact calm_done _ _ _
  | (f, .error e) => exact calm_inRequestFailure f _ _

end

/-- The rule of a lookup: what is found is cached already. -/
theorem calm_lookup {α : Type} {key : CacheKey} {f : Except CacheError (Application × Nat) → HostProg α}
    (found : ∀ keys count app cas, app.cacheKey.asString ∈ keys → cas ≠ 0 →
      Triple Host.exec (Holding keys count) (f (.ok (app, cas))) fun _ => Holding keys count)
    (missed : ∀ e, Calm (f (.error e))) : Calm (getApplicationFromCache key >>= f) := by
  intro keys count
  refine triple_bind (triple_getApplicationFromCache key) fun r => triple_given fun cached => ?_
  match r with
  | .ok (app, cas) =>
    obtain ⟨member, positive⟩ := cached app cas rfl
    exact found keys count app cas member positive
  | .error e => exact missed e keys count

theorem calm_getAppIdFromCache (userKey : UserKey) : Calm (getAppIdFromCache userKey) := by
  rw [getAppIdFromCache_eq]
  exact calm_only ⟨trivial, fun _ => trivial⟩

/-! The callbacks of the filter -/

namespace CacheFilter

/-- The context that asks for the callout-lock, if its application is not cached. -/
def missesApplication (f : CacheFilter) (d : SharedData) : Option CacheFilter :=
  if (d.applicationAt f.state.cacheKey).isSome then none else some f

def missesAppId (f : CacheFilter) (userKey : UserKey) (d : SharedData) : Option CacheFilter :=
  match d.appIdAt userKey with
  | some appId => (f.mapped appId).missesApplication d
  | none => some f

/-- The context once the data of its request are known. -/
def requested (f : CacheFilter) (data : ThreescaleData) : CacheFilter :=
  { f with
    state.cacheKey := { serviceId := data.serviceId, appId := data.appId }
    state.reqData := data }

/-- The context that asks for the callout-lock after a request with these headers. -/
def misses (f : CacheFilter) (lib : ThirdParty) (headers : Str → Option Str) (d : SharedData) : Option CacheFilter :=
  match getRequestData lib headers with
  | .error _ => none
  | .ok data =>
    match data.appId with
    | .userKey userKey => (f.requested data).missesAppId userKey d
    | .appId .. => (f.requested data).missesApplication d

end CacheFilter

section
variable {keys : Set Str} {count : Int}

/-- The rule of the two look-ups of the header callback. -/
theorem resting_lookUp {ε α : Type} (lib : ThirdParty) (rounds : Nat) (f : CacheFilter) {read : HostProg (Except ε α)}
    {found : α → HostProg (CacheFilter × Action)} {asks : Option CacheFilter} (h : Host)
    (reads : Triple Host.exec (Resting keys count h) read fun r h' => Resting keys count h h' ∧
      (∀ a, r = .ok a → Triple Host.exec (Resting keys count h) (found a) fun _ =>
        Holding (keys \ askedMisread asks h) count) ∧
      ∀ e, r = .error e → asks = some f) :
    Triple Host.exec (Resting keys count h) (f.lookUp lib rounds read found) fun _ =>
      Holding (keys \ askedMisread asks h) count := by
  refine triple_bind reads fun first => ?_
  rintro h₁ ⟨resting, hit, miss⟩
  cases first with
  | ok a => exact hit a rfl h₁ resting
  | error e =>
    obtain rfl := miss e rfl
    have counts : (incrementStat .cacheMisses).Only Harmless :=
      ⟨show Stat.cacheMisses ≠ .cachedApps by decide, fun _ => trivial⟩
    refine triple_bind (resting_only counts h) (fun _ => ?_) h₁ resting
    refine triple_bind (resting_setCalloutLock rounds f h) fun lock => ?_
    rintro h₂ ⟨held, settled⟩
    match lock with
    | .ok .lockAcquired => exact calm_doAuthCall lib f _ _ h₂ held
    | .ok .addedToWaitlist => exact calm_done _ _ _ h₂ held
    | .ok .responseCameFirst => exact absurd rfl settled
    | .error _ => exact calm_inRequestFailure f _ _ h₂ held

theorem resting_lookupApplication (lib : ThirdParty) (rounds : Nat) (f : CacheFilter) (h : Host) :
    Triple Host.exec (Resting keys count h) (f.lookupApplication lib rounds) fun _ =>
      Holding (keys \ askedMisread (f.missesApplication h.shared) h) count := by
  rw [lookupApplication_eq]
  refine resting_lookUp lib rounds f h ?_
  refine (resting_getApplicationFromCache f.state.cacheKey h).mono (fun _ resting => resting) ?_
  rintro r h' ⟨resting, found, missed⟩
  refine ⟨resting, ?_, fun e is => if_neg (by simp [missed e is])⟩
  rintro ⟨app, cas⟩ is
  obtain ⟨here, member, positive⟩ := found app cas is
  have hit : f.missesApplication h.shared = none := if_pos (by simp [here])
  rw [hit, askedMisread_none, Set.sdiff_empty]
  exact (triple_cacheHitOrFail_found f member positive).mono (fun _ resting => resting.holding) fun _ _ held => held

theorem resting_onUserKey (lib : ThirdParty) (rounds : Nat) (f : CacheFilter) (userKey : UserKey) (h : Host) :
    Triple Host.exec (Resting keys count h) (f.onUserKey lib rounds userKey) fun _ =>
      Holding (keys \ askedMisread (f.missesAppId userKey h.shared) h) count := by
  rw [onUserKey_eq]
  refine resting_lookUp lib rounds f h ?_
  refine (resting_getAppIdFromCache userKey h).mono (fun _ resting => resting) ?_
  rintro r h' ⟨resting, found⟩
  unfold CacheFilter.missesAppId
  refine ⟨resting, fun appId is => ?_, fun e is => ?_⟩
  · rw [(found appId).mp is]
    exact resting_lookupApplication lib rounds (f.mapped appId) h
  · have unmapped : h.shared.appIdAt userKey = none := by
      refine Option.eq_none_iff_forall_ne_some.mpr fun id here => ?_
      cases is.symm.trans ((found id).mpr here)
    rw [unmapped]

/-- The lock of a request is written over what is misread for it. -/
theorem resting_onHttpRequestHeaders (lib : ThirdParty) (rounds : Nat) (f : CacheFilter)
    (headers : Str → Option Str) (h : Host) :
    Triple Host.exec (Resting keys count h) (f.onHttpRequestHeaders lib rounds headers) fun _ =>
      Holding (keys \ askedMisread (f.misses lib headers h.shared) h) count := by
  unfold CacheFilter.onHttpRequestHeaders CacheFilter.misses
  cases CacheFilter.getRequestData lib headers with
  | error e =>
    have rejects : Calm (incrementStat .authMetadataErrors >>= fun _ => sendHttpResponse 401 none >>= fun _ =>
        (pure (f, .pause) : HostProg (CacheFilter × Action))) :=
      calm_bind (calm_incrementStat (by decide)) fun _ => calm_only ⟨trivial, fun _ => trivial⟩
    rw [askedMisread_none, Set.sdiff_empty]
    exact (rejects keys count).mono (fun _ resting => resting.holding) fun _ _ held => held
  | ok data =>
    have looksUp : ∀ appId : AppIdentifier, Triple Host.exec (Resting keys count h) (match appId with
        | .userKey userKey => (f.requested data).onUserKey lib rounds userKey
        | .appId .. => (f.requested data).lookupApplication lib rounds) fun _ =>
        Holding (keys \ askedMisread (match appId with
          | .userKey userKey => (f.requested data).missesAppId userKey h.shared
          | .appId .. => (f.requested data).missesApplication h.shared) h) count := by
      intro appId
      cases appId with
      | userKey userKey => exact resting_onUserKey lib rounds (f.requested data) userKey h
      | appId => exact resting_lookupApplication lib rounds (f.requested data) h
    exact looksUp data.appId

end

theorem calm_onHttpResponseHeaders (f : CacheFilter) : Calm f.onHttpResponseHeaders := by
  have header : ∀ name value, Calm (CacheFilter.addRateLimitHeader name value) := by
    intro name value
    cases value with
    | none => exact calm_done _
    | some value => exact calm_only ⟨trivial, fun _ => trivial⟩
  exact calm_bind (header _ _) fun _ => calm_bind (header _ _) fun _ => calm_bind (header _ _) fun _ => calm_done _

theorem calm_lookupForWaiter (w : CacheFilter) : Calm (CacheFilterRoot.lookupForWaiter w) := by
  refine calm_lookup (fun _ _ _ _ cached positive => ?_) fun _ => calm_done _
  refine triple_bind (triple_handleCacheHit_found w cached positive) fun hit => ?_
  match hit with
  | (w, .error e) => exact calm_bind (calm_requestProcessFailure w) (fun _ => calm_done _) _ _
  | (_, .ok ()) => exact calm_ask .resumeHttpRequest trivial _ _

theorem calm_wakeWaiter (w : CacheFilter) (action : WaiterAction) : Calm (CacheFilterRoot.wakeWaiter w action) := by
  cases action with
  | handleFailure => exact calm_bind (calm_requestProcessFailure w) fun _ => calm_done _
  | handleCacheHit =>
    show Calm (CacheFilterRoot.resumeCacheHit w)
    unfold CacheFilterRoot.resumeCacheHit
    split
    · refine calm_bind (calm_getAppIdFromCache _) fun r => ?_
      cases r with
      | ok appId => exact calm_lookupForWaiter _
      | error => exact calm_done _
    · exact calm_lookupForWaiter w

theorem calm_rootOnQueueReady (root : CacheFilterRoot) (queueId : Nat) : Calm (root.onQueueReady queueId) := by
  refine calm_bind (calm_ask (.dequeueSharedQueue queueId) trivial) fun r => ?_
  match r with
  | .ok (some (.waiterAction action)) =>
    have removes := calm_ask (.removeWaitingContext root.id action.contextId) trivial
    refine calm_bind (calm_ask (.getWaitingContext root.id action.contextId) trivial) fun context => ?_
    cases context with
    | none => exact calm_done _
    | some context =>
      refine calm_bind (calm_ask (.setEffectiveContext action.contextId) trivial) fun entered => ?_
      cases entered with
      | error => exact removes
      | ok => exact calm_bind (calm_wakeWaiter context action) fun _ => removes
  | .ok (some (.message _)) | .ok none | .error _ => exact calm_done _

/-! The callbacks of the singleton -/

namespace SingletonService

theorem calm_updateApplicationCache (data : ThreescaleData) (reqTime : Duration) :
    Calm (updateApplicationCache data reqTime) := by
  refine calm_lookup (fun keys count app cas cached _ => ?_) fun _ => calm_done _
  refine triple_bind (triple_limitCheck_found data reqTime cached) fun r => ?_
  match r with
  | .ok _ | .error (.cacheUpdateFail _) | .error .durationOverflow => exact calm_done _ _ _

theorem calm_performHttpCall (request : HttpRequest) : Calm (performHttpCall request) :=
  calm_ask (.dispatchHttpCall _) trivial

theorem calm_sendReports (calls : ApiCalls) (entries : List (Sigma fun _ : Str => AppMap Metrics))
    (s : SingletonService) : Calm (sendReports calls entries s) := by
  induction entries generalizing s with
  | nil => exact calm_done _
  | cons entry rest ih =>
    unfold sendReports
    split
    · exact fun _ _ => triple_trap
    · split
      · exact fun _ _ => triple_trap
      · refine calm_bind (calm_performHttpCall _) fun reply => ?_
        cases reply with
        | ok | error => exact calm_bind (ih _) fun _ => calm_done _

theorem calm_sendAuthRequests (calls : ApiCalls) (entries : List (Sigma fun _ : Str => CacheKey × ServiceToken))
    (s : SingletonService) : Calm (sendAuthRequests calls entries s) := by
  induction entries generalizing s with
  | nil => exact calm_done _
  | cons entry rest ih =>
    unfold sendAuthRequests
    split
    · exact ih s
    · refine calm_bind (calm_performHttpCall _) fun reply => ?_
      cases reply with
      | ok | error => exact ih _

theorem calm_flushLocalCache (calls : ApiCalls) (s : SingletonService) : Calm (s.flushLocalCache calls) :=
  calm_bind (calm_sendReports calls _ _) fun _ => calm_bind (calm_sendAuthRequests calls _ _) fun _ => calm_done _

theorem calm_recordUsage (calls : ApiCalls) (sizes : Sizes) (s : SingletonService) (data : ThreescaleData) :
    Calm (s.recordUsage calls sizes data) := by
  unfold recordUsage
  dsimp only
  split
  · exact calm_flushLocalCache calls _
  · exact calm_done _

theorem calm_onQueueReady (calls : ApiCalls) (sizes : Sizes) (s : SingletonService) :
    Calm (s.onQueueReady calls sizes) := by
  unfold onQueueReady
  split
  · exact fun _ _ => triple_trap
  · rename_i queueId _
    refine calm_bind (calm_ask (.dequeueSharedQueue queueId) trivial) fun r => ?_
    match r with
    | .ok (some (.message message)) =>
      dsimp only
      split
      · refine calm_bind (calm_updateApplicationCache message.data message.reqTime) fun updated => ?_
        cases updated with
        | ok => exact calm_recordUsage calls sizes s message.data
        | error => exact fun _ _ => triple_trap
      · exact calm_recordUsage calls sizes s message.data
    | .ok (some (.waiterAction _)) => exact fun _ _ => triple_trap
    | .ok none | .error _ => exact calm_done _

theorem calm_onTick (calls : ApiCalls) (s : SingletonService) : Calm (s.onTick calls) := by
  unfold onTick
  split
  · exact calm_flushLocalCache calls s
  · exact calm_done _

end SingletonService
end ThreescaleCache
