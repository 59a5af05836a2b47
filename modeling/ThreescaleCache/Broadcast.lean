import ThreescaleCache.Credentials
import ThreescaleCache.LoneRuns

namespace ThreescaleCache
open Interaction

/-! The owner of a callout-lock tells its waiters how to go on, and what they
find in the cache when they do. -/

namespace SharedData

/-- What is read as the callout-lock on `key`. -/
def lockAt (d : SharedData) (key : Str) : Option CalloutLockValue := (d.value key).bind SharedValue.lock

/-- Its waiters. -/
def waitersAt (d : SharedData) (key : Str) : List CalloutWaiter :=
  (d.lockAt key).elim [] CalloutLockValue.waiters

/-- Shared data once it is erased, if there is one. -/
def freed (d : SharedData) (key : Str) : SharedData :=
  if (d.lockAt key).isSome then d.put key none else d

end SharedData

/-- A message to a waiter, with shared data as they are when it is sent. -/
structure Notice where
  queueId : Nat
  action : WaiterAction
  shared : SharedData

def notice : HostCall → Host → List Notice
  | .enqueueSharedQueue queueId (.waiterAction action), h => [⟨queueId, action, h.shared⟩]
  | _, _ => []

/-- The notices of a callback that runs alone, and how it leaves shared data. -/
def notices (f : CacheFilter) (response : CallResponse) (h : Host) : List Notice :=
  seen Host.exec notice h ((f.onHttpCallResponse response).run Host.exec h).trace

def sharedAfter (f : CacheFilter) (response : CallResponse) (h : Host) : SharedData :=
  ((f.onHttpCallResponse response).run Host.exec h).state.shared

/-- The application that the waiting context `w` looks up is in the cache. -/
def Finds (d : SharedData) (w : CacheFilter) : Prop := (d.applicationOf w.state.cacheKey).isSome

/-- What a waiter is told agrees with the cache: it is sent into the cache hit
flow only while its application is there, and into the failure if it is not
there in the end. -/
structure AgreesWithCache (w : CacheFilter) (waiter : CalloutWaiter) (sent : List Notice) (after : SharedData) :
    Prop where
  hit : ∀ n ∈ sent, n.queueId = waiter.queueId → n.action = .handleCacheHit waiter.httpContextId →
    Finds n.shared w
  failure : ¬Finds after w →
    ∃ n ∈ sent, n.queueId = waiter.queueId ∧ n.action = .handleFailure waiter.httpContextId

/-! What a waiter does with what it finds -/

def Reads (t : List HostEvent) : Prop := ∀ e ∈ t, ∃ key, e.1 = .getSharedData key

theorem reads_one (key : Str) (r : HostCall.Reply (.getSharedData key)) : Reads [⟨.getSharedData key, r⟩] := by
  intro e member
  rw [List.mem_singleton.mp member]
  exact ⟨key, rfl⟩

theorem Reads.append {t t' : List HostEvent} (reads : Reads t) (reads' : Reads t') : Reads (t ++ t') :=
  fun e member => (List.mem_append.mp member).elim (reads e) (reads' e)

theorem run_getApplicationFromCache (key : CacheKey) (h : Host) :
    ∃ t r, (getApplicationFromCache key).run Host.exec h = ⟨t, .done r, h⟩ ∧ Reads t ∧
      ∀ app, (∃ cas, r = .ok (app, cas)) ↔ h.shared.applicationAt key = some app := by
  simp only [SharedData.applicationAt_eq_some, SharedData.value]
  unfold getApplicationFromCache getSharedData ask Prog.perform
  simp only [Prog.call_bind, Prog.done_bind, Prog.run, Host.exec]
  rcases h.shared.get_cases key.asString with ⟨cas, gone⟩ | ⟨v, cas, here⟩
  · rw [gone]
    exact ⟨_, _, rfl, reads_one _ _, by simp⟩
  · rw [here]
    cases v with
    | application | appId | calloutLock | memoryCounter => exact ⟨_, _, rfl, reads_one _ _, by simp⟩

theorem run_getAppIdFromCache (userKey : UserKey) (h : Host) :
    ∃ t r, (getAppIdFromCache userKey).run Host.exec h = ⟨t, .done r, h⟩ ∧ Reads t ∧
      ∀ id, r = .ok id ↔ h.shared.appIdAt userKey = some id := by
  rw [getAppIdFromCache_eq]
  refine ⟨_, _, rfl, reads_one _ _, fun id => ?_⟩
  simp only [Host.exec, appIdRead_eq_ok, SharedData.appIdAt, SharedData.value]
  rcases h.shared.get_cases userKey with ⟨cas, gone⟩ | ⟨v, cas, here⟩
  · simp [gone]
  · simp [here]

/-- What a waiter does once it has looked up `found`. Without an application
its request is neither resumed nor answered. -/
def Resumed (found : Option Application) (ran : Prog.Ran HostCall HostCall.Reply Host Unit) (h : Host) : Prop :=
  match found with
  | some app => ∃ t w cas, Reads t ∧ ran = { (CacheFilterRoot.waiterCacheHit w app cas).run Host.exec h with
      trace := t ++ ((CacheFilterRoot.waiterCacheHit w app cas).run Host.exec h).trace }
  | none => ∃ t, Reads t ∧ ran = ⟨t, .done (), h⟩

theorem resumed_lookupForWaiter (w : CacheFilter) (h : Host) :
    Resumed (h.shared.applicationAt w.state.cacheKey) ((CacheFilterRoot.lookupForWaiter w).run Host.exec h) h := by
  obtain ⟨t, r, fetched, reads, is⟩ := run_getApplicationFromCache w.state.cacheKey h
  unfold CacheFilterRoot.lookupForWaiter
  rw [Prog.run_bind_done fetched]
  match r with
  | .ok (app, cas) =>
    rw [(is app).mp ⟨cas, rfl⟩]
    exact ⟨t, w, cas, reads, rfl⟩
  | .error e =>
    have none_ : h.shared.applicationAt w.state.cacheKey = none := by
      refine Option.eq_none_iff_forall_ne_some.mpr fun app here => ?_
      obtain ⟨cas, found⟩ := (is app).mpr here
      cases found
    rw [none_]
    exact ⟨t, reads, by simp [Prog.run, pure]⟩

theorem Resumed.reads {found : Option Application} {ran : Prog.Ran HostCall HostCall.Reply Host Unit} {h : Host}
    {t : List HostEvent} (reads : Reads t) (resumed : Resumed found ran h) :
    Resumed found { ran with trace := t ++ ran.trace } h := by
  cases found with
  | none =>
    obtain ⟨t', reads', rfl⟩ := resumed
    exact ⟨t ++ t', reads.append reads', rfl⟩
  | some app =>
    obtain ⟨t', w, cas, reads', rfl⟩ := resumed
    exact ⟨t ++ t', w, cas, reads.append reads', by simp only [List.append_assoc]⟩

/-- A waiter that is sent into the cache hit flow looks up `applicationOf` its
cache key. -/
theorem resumed_resumeCacheHit (w : CacheFilter) (h : Host) :
    Resumed (h.shared.applicationOf w.state.cacheKey) ((CacheFilterRoot.resumeCacheHit w).run Host.exec h) h := by
  unfold CacheFilterRoot.resumeCacheHit SharedData.applicationOf
  cases by_ : w.state.cacheKey.appId with
  | appId => exact resumed_lookupForWaiter w h
  | userKey userKey =>
    obtain ⟨t, r, fetched, reads, is⟩ := run_getAppIdFromCache userKey h
    dsimp only
    rw [Prog.run_bind_done fetched]
    match r with
    | .ok id =>
      rw [(is id).mp rfl]
      exact (resumed_lookupForWaiter { w with
        state.cacheKey := w.state.cacheKey.setAppId (.appId id none) } h).reads reads
    | .error e =>
      have unmapped : h.shared.appIdAt userKey = none := by
        refine Option.eq_none_iff_forall_ne_some.mpr fun id here => ?_
        cases (is id).mpr here
      rw [unmapped]
      exact ⟨t, reads, by simp [Prog.run, pure]⟩

/-! When the waiters are told what agrees -/

/-- Shared data with the mapping of the user_key recorded, if there is one. -/
def SharedData.recorded (d : SharedData) (key : CacheKey) (appId : AppId) : SharedData :=
  match key.appId with
  | .userKey userKey => d.put userKey (some (.appId appId))
  | .appId .. => d

/-- The application of `w` is there once the lock of `f` has been freed, which
it is unless the callback panics. -/
def FreedFinds (f w : CacheFilter) (panics : Prop) [Decidable panics] (d : SharedData) : Prop :=
  if panics then Finds d w else Finds (d.freed (calloutLockKey f.state.cacheKey)) w

/-- For an application formed from the response: the cache hit flow fails, or
the application of `w` is there after what it stores. -/
def FreshConsistent (f w : CacheFilter) (app : Application) (h : Host) : Prop :=
  match h.queueIds queueName, h.clock with
  | some _, some now =>
    if (addHierarchyToMetrics app.metricHierarchy f.state.reqData.metrics).isNone then Finds h.shared w
    else if f.config.maxTries = 0 then FreedFinds f w False h.shared
    else
      match limitCheck now f.state.reqData.metrics.entries app {} with
      | .overflow => True
      | .pass app' _ => FreedFinds f w (h.shared.StoringPanics app.cacheKey.asString app')
          (h.shared.stored app.cacheKey.asString app')
      | .limited .. => FreedFinds f w False h.shared
      | .trap => Finds h.shared w
  | _, _ => True

def AuthConsistent (f w : CacheFilter) (response : AuthorizationStatus) (h : Host) : Prop :=
  match CacheFilter.authResponseIds response with
  | .error _ => True
  | .ok (appKeys, appId, serviceId) =>
    match CacheFilter.authResponseApplication response appKeys appId serviceId with
    | none => True
    | some app => FreshConsistent f w app { h with shared := h.shared.recorded f.state.cacheKey appId }

def BodyConsistent (f w : CacheFilter) (body : Option ResponseBody) (h : Host) : Prop :=
  match body with
  | none | some .unparsable => True
  | some .notUtf8 | some (.parsed (.error _)) => Finds h.shared w
  | some (.parsed (.status response)) =>
    if response.isAuthorized || response.usageReports.isSome then AuthConsistent f w response h
    else response.reason.isSome ∨ Finds h.shared w

/-- The condition on a response, for the context `w` of a waiter. -/
def Consistent (f w : CacheFilter) (response : CallResponse) (h : Host) : Prop :=
  match response.status with
  | none => Finds h.shared w
  | some status => status = timeoutStatus ∨ BodyConsistent f w response.body h

/-- What is found after the cache hit flow, where it does not fail. -/
def HitFinds (f w : CacheFilter) (app : Application) (h : Host) : Prop :=
  (f.PanicsFirst h app → Finds (f.filedFirst h app) w) ∧
    (¬f.PanicsFirst h app → Finds ((f.filedFirst h app).freed (calloutLockKey f.state.cacheKey)) w)

theorem freshConsistent_iff {f w : CacheFilter} {app : Application} {h : Host} :
    FreshConsistent f w app h ↔ f.FailsFirst h app ∨ HitFinds f w app h := by
  unfold FreshConsistent HitFinds CacheFilter.FailsFirst CacheFilter.PanicsFirst CacheFilter.filedFirst
  cases h.queueIds queueName with
  | none => exact iff_of_true trivial (Or.inl trivial)
  | some queueId =>
    cases h.clock with
    | none => exact iff_of_true trivial (Or.inl trivial)
    | some now =>
      cases addHierarchyToMetrics app.metricHierarchy f.state.reqData.metrics with
      | none => simp
      | some metrics =>
        by_cases untried : f.config.maxTries = 0
        · simp [untried, FreedFinds]
        · cases verdict : limitCheck now f.state.reqData.metrics.entries app {} with
          | overflow => simp [untried, verdict, Verdict.overflows]
          | limited => simp [untried, verdict, Verdict.overflows, Verdict.Panics, Verdict.filed, FreedFinds]
          | trap => simp [untried, verdict, Verdict.overflows, Verdict.Panics, Verdict.filed]
          | pass app' info =>
            by_cases panics : h.shared.StoringPanics app.cacheKey.asString app'
            · simp [untried, verdict, panics, Verdict.overflows, Verdict.Panics, Verdict.filed, FreedFinds]
            · simp [untried, verdict, panics, Verdict.overflows, Verdict.Panics, Verdict.filed, FreedFinds]

/-! What the callback does before it frees the lock -/

theorem filedFirst_of_fails {f : CacheFilter} {h : Host} {app : Application} (fails : f.FailsFirst h app) :
    f.filedFirst h app = h.shared := by
  unfold CacheFilter.FailsFirst at fails
  unfold CacheFilter.filedFirst
  split
  · split
    · rfl
    · rename_i queueId now queue clock _
      rw [queue, clock] at fails
      exact Verdict.filed_of_overflows _ _ fails.2.2
  · rfl

/-- The mapping is never recorded under the key of the lock. -/
theorem recorded_value_lock (d : SharedData) (key : CacheKey) (appId : AppId) :
    (d.recorded key appId).value (calloutLockKey key) = d.value (calloutLockKey key) := by
  unfold SharedData.recorded
  split
  · rename_i userKey by_
    exact d.value_put_ne _ (calloutLockKey_ne by_)
  · rfl

theorem alone_recordAppId (f : CacheFilter) (appId : AppId) (h : Host) :
    Alone Host.exec (fun h' r => h' = { h with shared := h.shared.recorded f.state.cacheKey appId } ∧
      ∃ f', r = some (f', .ok ()) ∧ f'.config = f.config ∧
        f'.state.reqData.metrics = f.state.reqData.metrics) (f.recordAppId appId) h := by
  unfold CacheFilter.recordAppId SharedData.recorded
  cases f.state.cacheKey.appId with
  | userKey userKey =>
    refine alone_bind.mpr (alone_bind.mpr (alone_call.mpr ?_))
    simp only [Host.exec, h.shared.set_overwrite _ _ SharedData.no_cas]
    exact ⟨rfl, _, rfl, rfl, rfl⟩
  | appId => exact ⟨rfl, _, rfl, rfl, rfl⟩


/-- How the handling of a response ends. -/
def AuthEnd (f w : CacheFilter) (response : AuthorizationStatus) (h h' : Host) :
    Option (CacheFilter × Except AuthResponseError Unit) → Prop
  | some (_, .error _) => AuthConsistent f w response h ∧
      h'.shared.value (calloutLockKey f.state.cacheKey) = h.shared.value (calloutLockKey f.state.cacheKey)
  | some (_, .ok ()) =>
    AuthConsistent f w response h ↔ Finds (h'.shared.freed (calloutLockKey f.state.cacheKey)) w
  | none => AuthConsistent f w response h ↔ Finds h'.shared w

theorem alone_handleAuthResponse (f w : CacheFilter) (response : AuthorizationStatus) (h : Host) :
    Alone Host.exec (fun h' r => AuthEnd f w response h h' r) (f.handleAuthResponse response) h := by
  unfold CacheFilter.handleAuthResponse
  cases ids : CacheFilter.authResponseIds response with
  | error e =>
    refine ⟨?_, rfl⟩
    simp only [AuthConsistent, ids]
  | ok carried =>
    obtain ⟨appKeys, appId, serviceId⟩ := carried
    refine alone_bind.mpr ((alone_recordAppId f appId h).mono fun h₁ r recorded => ?_)
    obtain ⟨rfl, f', rfl, config, metrics⟩ := recorded
    have kept := recorded_value_lock h.shared f.state.cacheKey appId
    refine after_some.mpr ?_
    dsimp only
    cases formed : CacheFilter.authResponseApplication response appKeys appId serviceId with
    | none =>
      refine ⟨?_, kept⟩
      simp only [AuthConsistent, ids, formed]
    | some app =>
      have consistent : AuthConsistent f w response h ↔
          FreshConsistent f w app { h with shared := h.shared.recorded f.state.cacheKey appId } := by
        simp only [AuthConsistent, ids, formed]
      rw [freshConsistent_iff, HitFinds] at consistent
      refine alone_bind.mpr ((alone_handleCacheHit f ?_ ?_ app _).mono fun h₂ r hit => ?_)
      · exact config
      · exact metrics
      obtain ⟨same, gaveUp, panics⟩ := hit
      rw [← same] at consistent
      match r with
      | none =>
        have stayed := mt gaveUp.mpr not_gaveUp_none
        have traps := panics.mp rfl
        show _ ↔ _
        rw [consistent, or_iff_right stayed]
        exact ⟨fun finds => finds.1 traps, fun found => ⟨fun _ => found, fun goesOn => absurd traps goesOn⟩⟩
      | some (f₂, .ok ()) =>
        have stayed := mt gaveUp.mpr (not_gaveUp_ok f₂)
        have goesOn := mt panics.mpr (by simp)
        show _ ↔ _
        rw [consistent, or_iff_right stayed]
        exact ⟨fun finds => finds.2 goesOn, fun found => ⟨fun traps => absurd traps goesOn, fun _ => found⟩⟩
      | some (_, .error e) =>
        have fails := gaveUp.mp ⟨_, e, rfl⟩
        rw [filedFirst_of_fails fails] at same
        exact ⟨consistent.mpr (Or.inl fails), same ▸ kept⟩

/-- What the callback has come to before it frees the lock. -/
def Decided (key : Str) (w : CacheFilter) (consistent : Prop) (h h' : Host) :
    Option (CacheFilter × Option WaiterAction) → Prop
  | some (_, some (.handleFailure _)) => consistent ∧ h'.shared.value key = h.shared.value key
  | some (_, some (.handleCacheHit _)) => consistent ↔ Finds (h'.shared.freed key) w
  | some (_, none) | none => consistent ↔ Finds h'.shared w

theorem alone_requestProcessFailure (f : CacheFilter) (h : Host) :
    Alone Host.exec (fun h' r => h'.shared = h.shared ∧ ∃ f', r = some f') f.requestProcessFailure h := by
  unfold CacheFilter.requestProcessFailure onlyIf
  dsimp only
  split
  · exact ⟨rfl, _, rfl⟩
  · exact ⟨rfl, _, rfl⟩

/-- A failure of the request is a failure of its waiters. -/
theorem alone_failure {key : Str} {w : CacheFilter} {consistent : Prop} (f : CacheFilter) {h h' : Host}
    (holds : consistent) (kept : h'.shared.value key = h.shared.value key) :
    Alone Host.exec (fun h₂ r => Decided key w consistent h h₂ r)
      (f.requestProcessFailure >>= fun f' => pure (f', some (.handleFailure 0))) h' := by
  refine alone_bind.mpr ((alone_requestProcessFailure f h').mono fun h₂ r failed => ?_)
  obtain ⟨same, f', rfl⟩ := failed
  refine ⟨holds, ?_⟩
  rw [same]
  exact kept

theorem alone_onAuthorization (f w : CacheFilter) (authorization : Authorization) (h : Host) :
    Alone Host.exec (fun h' r => Decided (calloutLockKey f.state.cacheKey) w
        (BodyConsistent f w (some (.parsed authorization)) h) h h' r)
      (f.onAuthorization authorization) h := by
  cases authorization with
  | error code =>
    refine alone_bind.mpr ((alone_requestProcessFailure f h).mono fun h₂ r failed => ?_)
    obtain ⟨same, f', rfl⟩ := failed
    show _ ↔ Finds h₂.shared w
    rw [same]
    exact Iff.rfl
  | status response =>
    unfold CacheFilter.onAuthorization BodyConsistent
    dsimp only
    split
    · refine alone_bind.mpr ((alone_handleAuthResponse f w response h).mono fun h₁ r ended => ?_)
      match r with
      | none => exact ended
      | some (_, .ok ()) => exact ended
      | some (f₁, .error e) => exact alone_failure f₁ ended.1 ended.2
    · refine alone_bind.mpr (alone_call.mpr (after_some.mpr ?_))
      cases response.reason with
      | none => exact or_iff_right (by simp)
      | some reason => exact ⟨Or.inl rfl, rfl⟩

theorem alone_onCallResult (f w : CacheFilter) (status : Str) (body : Option ResponseBody) (h : Host) :
    Alone Host.exec (fun h' r => Decided (calloutLockKey f.state.cacheKey) w
        (status = timeoutStatus ∨ BodyConsistent f w body h) h h' r)
      (f.onCallResult status body) h := by
  unfold CacheFilter.onCallResult
  split
  · rename_i arrived
    rw [or_iff_right arrived]
    match body with
    | none | some .unparsable => exact alone_failure f trivial rfl
    | some .notUtf8 => exact Iff.rfl
    | some (.parsed authorization) => exact alone_onAuthorization f w authorization h
  · rename_i timeout
    refine alone_bind.mpr (alone_call.mpr ?_)
    exact alone_failure f (Or.inl (not_ne_iff.mp timeout)) rfl

/-! The waiters are told -/

/-- All waiters are told the same, in their order, before the lock is erased. -/
theorem watched_notifyWaiters (action : WaiterAction) (waiters : List CalloutWaiter) (h : Host)
    (sent : List Notice) :
    Alone (watched Host.exec notice) (fun s r => s.1.shared = h.shared ∧ r = some () ∧
        s.2 = sent ++ waiters.map fun waiter => ⟨waiter.queueId, action.withContext waiter.httpContextId, h.shared⟩)
      (notifyWaiters action waiters) (h, sent) := by
  induction waiters generalizing h sent with
  | nil => exact ⟨rfl, rfl, (List.append_nil sent).symm⟩
  | cons waiter rest ih =>
    refine alone_bind.mpr (alone_call.mpr (after_some.mpr ((ih _ _).mono fun s r told => ?_)))
    obtain ⟨same, rfl, told⟩ := told
    refine ⟨same, rfl, ?_⟩
    rw [told, List.map_cons, List.append_cons]
    rfl

/-- What the waiters on a lock were sent when it was freed. -/
def told (action : WaiterAction) (key : Str) (d : SharedData) : List Notice :=
  (d.waitersAt key).map fun waiter => ⟨waiter.queueId, action.withContext waiter.httpContextId, d⟩

/-- What is found once a lock is erased was found before, unless the lock is
read for a mapping. -/
theorem finds_freed {d : SharedData} {key : Str} {w : CacheFilter}
    (other : ∀ userKey, w.state.cacheKey.appId = .userKey userKey → userKey ≠ key)
    (found : Finds (d.freed key) w) : Finds d w := by
  unfold SharedData.freed at found
  split at found
  · have at_ : ∀ k, ((d.put key none).applicationAt k).isSome → (d.applicationAt k).isSome := by
      intro k here
      rw [SharedData.applicationAt_erased] at here
      split at here
      · cases here
      · exact here
    unfold Finds at found ⊢
    cases by_ : w.state.cacheKey.appId with
    | appId =>
      simp only [SharedData.applicationOf, by_] at found ⊢
      exact at_ _ found
    | userKey userKey =>
      simp only [SharedData.applicationOf_userKey by_, SharedData.appIdAt, d.value_put_ne none (other userKey by_)]
        at found ⊢
      revert found
      cases (d.value userKey).bind SharedValue.text with
      | none => exact id
      | some appId => exact at_ _
  · exact found

theorem watched_freeCalloutLock (cacheKey : CacheKey) (action : WaiterAction) (h : Host) (sent : List Notice) :
    Alone (watched Host.exec notice) (fun s _ => s.1.shared = h.shared.freed (calloutLockKey cacheKey) ∧
        s.2 = sent ++ told action (calloutLockKey cacheKey) h.shared)
      (freeCalloutLockAndNotifyWaiters cacheKey action) (h, sent) := by
  refine alone_bind.mpr (alone_call.mpr ?_)
  simp only [watched, Host.exec, notice, List.append_nil]
  rcases h.shared.get_cases (calloutLockKey cacheKey) with ⟨cas, gone⟩ | ⟨v, cas, here⟩
  · rw [gone]
    have none_ : h.shared.lockAt (calloutLockKey cacheKey) = none := by
      rw [SharedData.lockAt, SharedData.value, gone, Option.bind_none]
    refine ⟨by simp [SharedData.freed, none_], ?_⟩
    simp [told, SharedData.waitersAt, none_]
  · have read : h.shared.lockAt (calloutLockKey cacheKey) = v.lock := by
      rw [SharedData.lockAt, SharedData.value, here, Option.bind_some]
    rw [here]
    refine after_some.mpr ?_
    dsimp only
    cases lock : v.lock with
    | none =>
      refine ⟨by simp [SharedData.freed, read, lock], ?_⟩
      simp [told, SharedData.waitersAt, read, lock]
    | some value =>
      refine alone_bind.mpr ((watched_notifyWaiters action value.waiters h sent).mono ?_)
      intro s r notified
      obtain ⟨kept, rfl, notified⟩ := notified
      refine after_some.mpr (alone_call.mpr ?_)
      simp only [watched, Host.exec, notice, List.append_nil, SharedData.set_overwrite _ _ _ SharedData.no_cas]
      refine ⟨?_, ?_⟩
      · rw [kept, SharedData.freed, read, lock]
        exact (if_pos rfl).symm
      · rw [notified, told, SharedData.waitersAt, read, lock]
        rfl

/-- Nothing is told before the lock is freed. -/
theorem notice_answerCall {key : CacheKey} {c : HostCall} (answer : AnswerCall key c) (h : Host) :
    notice c h = [] := by
  cases answer with
  | record | refuse => rfl
  | giveUp failure => cases failure <;> rfl
  | hit hit =>
    cases hit with
    | count | resolve | time | report | limit | resume => rfl
    | check check =>
      cases check with
      | checked => rfl
      | filing filing =>
        cases filing with
        | application => rfl
        | side side => cases side <;> rfl

theorem mem_told {action : WaiterAction} {key : Str} {d : SharedData} {waiter : CalloutWaiter}
    (waits : waiter ∈ d.waitersAt key) :
    ⟨waiter.queueId, action.withContext waiter.httpContextId, d⟩ ∈ told action key d :=
  List.mem_map.mpr ⟨waiter, waits, rfl⟩

/-- A waiter that is told nothing has to find its application. -/
theorem agrees_untold {w : CacheFilter} {waiter : CalloutWaiter} {after : SharedData} :
    AgreesWithCache w waiter [] after ↔ Finds after w := by
  constructor
  · intro agrees
    by_contra lost
    obtain ⟨n, member, _⟩ := agrees.failure lost
    cases member
  · intro finds
    exact ⟨fun n member => absurd member (List.not_mem_nil), fun lost => absurd finds lost⟩

/-- All waiters are told of the failure. -/
theorem agrees_failure {w : CacheFilter} {waiter : CalloutWaiter} {key : Str} {d after : SharedData} {id : Nat}
    (waits : waiter ∈ d.waitersAt key) : AgreesWithCache w waiter (told (.handleFailure id) key d) after where
  hit := by
    intro n member _ action
    obtain ⟨other, _, rfl⟩ := List.mem_map.mp member
    cases action
  failure := fun _ => ⟨_, mem_told waits, rfl, rfl⟩

/-- All waiters are sent into the cache hit flow. -/
theorem agrees_hit {w : CacheFilter} {waiter : CalloutWaiter} {key : Str} {d after : SharedData} {id : Nat}
    (earlier : Finds after w → Finds d w) :
    AgreesWithCache w waiter (told (.handleCacheHit id) key d) after ↔ Finds after w := by
  constructor
  · intro agrees
    by_contra lost
    obtain ⟨n, member, _, action⟩ := agrees.failure lost
    obtain ⟨other, _, rfl⟩ := List.mem_map.mp member
    cases action
  · refine fun finds => ⟨?_, fun lost => absurd finds lost⟩
    intro n member _ _
    obtain ⟨other, _, rfl⟩ := List.mem_map.mp member
    exact earlier finds

/-- What is sent, and what is found afterwards, by what the callback has come to. -/
theorem watched_onHttpCallResponse (f w : CacheFilter) (response : CallResponse) (h : Host)
    {waiter : CalloutWaiter} (waits : waiter ∈ h.shared.waitersAt (calloutLockKey f.state.cacheKey))
    (same : calloutLockKey w.state.cacheKey = calloutLockKey f.state.cacheKey) :
    Alone (watched Host.exec notice) (fun s _ => AgreesWithCache w waiter s.2 s.1.shared ↔ Consistent f w response h)
      (f.onHttpCallResponse response) (h, []) := by
  unfold CacheFilter.onHttpCallResponse Consistent
  cases response.status with
  | none => exact agrees_untold
  | some status =>
    dsimp only
    have silent := (only_onCallResult f status response.body).mono fun _ answer h => notice_answerCall answer h
    refine alone_bind.mpr (((alone_onCallResult f w status response.body h).unseen silent).mono fun s r decided => ?_)
    obtain ⟨h₁, sent⟩ := s
    obtain ⟨decided, rfl⟩ := decided
    match r with
    | none => exact agrees_untold.trans decided.symm
    | some (f', none) => exact agrees_untold.trans decided.symm
    | some (f', some (.handleFailure id)) =>
      refine after_some.mpr (alone_bind.mpr ((watched_freeCalloutLock f.state.cacheKey _ h₁ []).mono ?_))
      intro s r freed
      obtain ⟨consistent, kept⟩ := decided
      have waits' : waiter ∈ h₁.shared.waitersAt (calloutLockKey f.state.cacheKey) := by
        rwa [SharedData.waitersAt, SharedData.lockAt, kept]
      have agrees : AgreesWithCache w waiter s.2 s.1.shared := by
        rw [freed.2]
        exact agrees_failure waits'
      cases r with
      | none => exact iff_of_true agrees consistent
      | some => exact iff_of_true agrees consistent
    | some (f', some (.handleCacheHit id)) =>
      refine after_some.mpr (alone_bind.mpr ((watched_freeCalloutLock f.state.cacheKey _ h₁ []).mono ?_))
      intro s r freed
      have earlier : Finds s.1.shared w → Finds h₁.shared w := by
        rw [freed.1]
        exact finds_freed fun userKey by_ => same ▸ (calloutLockKey_ne by_).symm
      have agrees : AgreesWithCache w waiter s.2 s.1.shared ↔ Finds s.1.shared w := by
        rw [freed.2]
        exact agrees_hit earlier
      have finds : Finds s.1.shared w ↔ Finds (h₁.shared.freed (calloutLockKey f.state.cacheKey)) w := by
        rw [freed.1]
      cases r with
      | none => exact agrees.trans (finds.trans decided.symm)
      | some => exact agrees.trans (finds.trans decided.symm)

/-- For a context on the same lock, the broadcast agrees with the cache exactly
in the cases of `Consistent`. -/
theorem broadcast_agrees_iff (f w : CacheFilter) (response : CallResponse) (h : Host)
    {waiter : CalloutWaiter} (waits : waiter ∈ h.shared.waitersAt (calloutLockKey f.state.cacheKey))
    (same : calloutLockKey w.state.cacheKey = calloutLockKey f.state.cacheKey) :
    AgreesWithCache w waiter (notices f response h) (sharedAfter f response h) ↔ Consistent f w response h :=
  alone_watched_iff.mp (watched_onHttpCallResponse f w response h waits same)

/-! The owner and one waiter on the same lock, by app_id -/

def secondWaiter : CalloutWaiter := { queueId := 7, httpContextId := 2 }

def lockedHost : Host :=
  { quietHost with
    shared := SharedData.empty.put (calloutLockKey (hitContext 5).state.cacheKey)
      (some (.calloutLock { ownedBy := 0, waiters := [secondWaiter] })) }

theorem secondWaiter_waits :
    secondWaiter ∈ lockedHost.shared.waitersAt (calloutLockKey (hitContext 5).state.cacheKey) := by
  decide

theorem broadcast_agrees_authorized :
    AgreesWithCache (hitContext 5) secondWaiter
      (notices (hitContext 5) (callResponse "200" (fiveHits true 0)) lockedHost)
      (sharedAfter (hitContext 5) (callResponse "200" (fiveHits true 0)) lockedHost) := by
  refine (broadcast_agrees_iff (hitContext 5) (hitContext 5) _ lockedHost secondWaiter_waits rfl).mpr (Or.inr ?_)
  show Option.isSome _ = true
  decide

/-- A response that exhausts the limit is not stored, and all the same the
waiter is sent into the cache hit flow. -/
theorem not_agrees_limited :
    ¬AgreesWithCache (hitContext 5) secondWaiter
      (notices (hitContext 5) (callResponse "409" (fiveHits false 5)) lockedHost)
      (sharedAfter (hitContext 5) (callResponse "409" (fiveHits false 5)) lockedHost) := by
  intro agrees
  have lost : ¬Finds lockedHost.shared (hitContext 5) := by
    unfold Finds
    decide
  have told_ := alone_watched_iff.mp (watched_onHttpCallResponse (hitContext 5) (hitContext 5)
    (callResponse "409" (fiveHits false 5)) lockedHost secondWaiter_waits rfl)
  rcases told_.mp agrees with timeout | found
  · exact absurd timeout (by decide)
  · exact lost found

end ThreescaleCache
