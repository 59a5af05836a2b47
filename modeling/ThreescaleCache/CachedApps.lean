import ThreescaleCache.Broadcast
import ThreescaleCache.InFlight
import ThreescaleCache.Ledger.Census
import ThreescaleCache.RefusedRefresh
import ThreescaleCache.Reporting
import ThreescaleCache.SteadyCache

namespace ThreescaleCache
open Interaction

/-! The gauge of the cached applications, over runs of whole callbacks of the
filters and of the singleton. -/

namespace CacheFilter

/-- The status in a response that the filter goes on with. -/
def answer (response : CallResponse) : Option AuthorizationStatus :=
  match response.status, response.body with
  | some status, some (.parsed (.status data)) =>
    if status ≠ timeoutStatus ∧ (data.isAuthorized || data.usageReports.isSome) then some data else none
  | _, _ => none

/-- The check for an application that was formed from a response is made, and passes. -/
def FilesFirst (f : CacheFilter) (h : Host) (app : Application) : Prop :=
  (h.queueIds queueName).isSome ∧ (addHierarchyToMetrics app.metricHierarchy f.state.reqData.metrics).isSome ∧
    f.config.maxTries ≠ 0 ∧ ∃ now, h.clock = some now ∧ (limitCheck now f.state.reqData.metrics.entries app {}).passes

/-- The user_key that is mapped to the app_id of the answer. -/
def mappedKeys (f : CacheFilter) (data : AuthorizationStatus) : Set Str :=
  {key | f.state.cacheKey.appId = .userKey key ∧ ∃ ids, authResponseIds data = .ok ids}

/-- The key under which its application is stored, if it is. -/
def filedKeys (f : CacheFilter) (h : Host) (data : AuthorizationStatus) : Set Str :=
  {key | ∃ appKeys appId serviceId app, authResponseIds data = .ok (appKeys, appId, serviceId) ∧
    authResponseApplication data appKeys appId serviceId = some app ∧ f.FilesFirst h app ∧
    key = app.cacheKey.asString}

/-- That application, as the check leaves it. -/
def filedApps (f : CacheFilter) (h : Host) (data : AuthorizationStatus) : Set Application :=
  {app' | ∃ appKeys appId serviceId app now info, authResponseIds data = .ok (appKeys, appId, serviceId) ∧
    authResponseApplication data appKeys appId serviceId = some app ∧ f.FilesFirst h app ∧ h.clock = some now ∧
    limitCheck now f.state.reqData.metrics.entries app {} = .pass app' info}

/-- Once the answer is handled, an application is misread for the lock of the context. -/
def MisreadAfter (f : CacheFilter) (h : Host) (data : AuthorizationStatus) : Prop :=
  (∃ app' ∈ f.filedApps h data, app'.cacheKey.asString = lockKey f ∧ (SharedValue.application app').lock.isSome) ∨
    lockKey f ∉ f.filedKeys h data ∧ h.shared.Misread (lockKey f)

end CacheFilter

theorem misread_congr {d d' : SharedData} {key : Str} (same : d'.value key = d.value key) :
    d'.Misread key ↔ d.Misread key := by
  rw [SharedData.Misread, same, SharedData.Misread]

theorem misread_stored (d : SharedData) (key other : Str) (app : Application) :
    (d.stored key app).Misread other ↔
      if other = key then (SharedValue.application app).lock.isSome = true else d.Misread other := by
  have alike : (d.stored key app).Misread other ↔ (d.put key (some (.application app))).Misread other :=
    exists_congr fun app' => and_congr_left fun _ => (d.stored_alike key app).application other app'
  rw [alike]
  split
  · rename_i same
    subst same
    simp [SharedData.Misread, SharedData.value_put_self]
  · rename_i different
    exact misread_congr (d.value_put_ne _ different)

/-- What is misread once the cache hit flow has stored an application. -/
theorem misread_filedFirst (f : CacheFilter) (h : Host) (app : Application) (key : Str) :
    (f.filedFirst h app).Misread key ↔
      (∃ now app' info, f.FilesFirst h app ∧ h.clock = some now ∧
        limitCheck now f.state.reqData.metrics.entries app {} = .pass app' info ∧ app.cacheKey.asString = key ∧
          (SharedValue.application app').lock.isSome) ∨
        ¬(f.FilesFirst h app ∧ key = app.cacheKey.asString) ∧ h.shared.Misread key := by
  unfold CacheFilter.FilesFirst CacheFilter.filedFirst
  cases h.queueIds queueName with
  | none => simp
  | some queueId =>
    cases h.clock with
    | none => simp
    | some now =>
      cases addHierarchyToMetrics app.metricHierarchy f.state.reqData.metrics with
      | none => simp
      | some metrics =>
        by_cases untried : f.config.maxTries = 0
        · simp [untried]
        · cases verdict : limitCheck now f.state.reqData.metrics.entries app {} with
          | overflow | limited | trap => simp [untried, verdict, Verdict.passes, Verdict.filed]
          | pass app' info =>
            by_cases same : key = app.cacheKey.asString
            · subst same
              simp [untried, verdict, Verdict.passes, Verdict.filed, misread_stored]
            · simp [untried, verdict, Verdict.passes, Verdict.filed, misread_stored, same, Ne.symm same]

theorem alone_handleAuthResponse_misread (f : CacheFilter) (data : AuthorizationStatus) (h : Host) :
    Alone Host.exec (fun h' _ => h'.shared.Misread (lockKey f) ↔ f.MisreadAfter h data)
      (f.handleAuthResponse data) h := by
  unfold CacheFilter.handleAuthResponse
  cases ids : CacheFilter.authResponseIds data with
  | error e =>
    show h.shared.Misread (lockKey f) ↔ _
    simp [CacheFilter.MisreadAfter, CacheFilter.filedApps, CacheFilter.filedKeys, ids]
  | ok carried =>
    obtain ⟨appKeys, appId, serviceId⟩ := carried
    refine alone_bind.mpr ((alone_recordAppId f appId h).mono fun h₁ r recorded => ?_)
    obtain ⟨rfl, f', rfl, config, metrics⟩ := recorded
    have kept : (h.shared.recorded f.state.cacheKey appId).Misread (lockKey f) ↔ h.shared.Misread (lockKey f) :=
      misread_congr (recorded_value_lock h.shared f.state.cacheKey appId)
    refine after_some.mpr ?_
    dsimp only
    cases formed : CacheFilter.authResponseApplication data appKeys appId serviceId with
    | none =>
      show (h.shared.recorded f.state.cacheKey appId).Misread (lockKey f) ↔ _
      simp [CacheFilter.MisreadAfter, CacheFilter.filedApps, CacheFilter.filedKeys, ids, formed, kept]
    | some app =>
      refine alone_bind.mpr ((alone_handleCacheHit f ?_ ?_ app _).mono fun h₂ r hit => ?_)
      · exact config
      · exact metrics
      have after : h₂.shared.Misread (lockKey f) ↔ f.MisreadAfter h data := by
        rw [hit.1, misread_filedFirst]
        refine or_congr ⟨?_, ?_⟩ (and_congr (not_congr ⟨?_, ?_⟩) kept)
        · rintro ⟨now, app', info, files, clock, pass, key, reads⟩
          refine ⟨app', ⟨_, _, _, app, now, info, ids, formed, files, clock, pass⟩, ?_, reads⟩
          rw [limitCheck_pass_cacheKey pass, key]
        · rintro ⟨app', ⟨_, _, _, _, now, info, ids', formed', files, clock, pass⟩, key, reads⟩
          cases ids.symm.trans ids'
          cases formed.symm.trans formed'
          rw [limitCheck_pass_cacheKey pass] at key
          exact ⟨now, app', info, files, clock, pass, key, reads⟩
        · exact fun ⟨files, key⟩ => ⟨_, _, _, app, ids, formed, files, key⟩
        · rintro ⟨_, _, _, _, ids', formed', files, key⟩
          cases ids.symm.trans ids'
          cases formed.symm.trans formed'
          exact ⟨files, key⟩
      match r with
      | none | some (_, .ok ()) | some (_, .error _) => exact after

/-- One more application, where `p` holds. -/
structure Gains (keys : Set Str) (count : Int) (key : Str) (p : Prop) (h : Host) : Prop where
  gained : p → Holding (insert key keys) (count + 1) h
  kept : ¬p → Holding keys count h

theorem Gains.union {keys : Set Str} {count : Int} {key : Str} {p : Prop} {h : Host}
    (gains : Gains keys count key p h) :
    Holding (keys ∪ {k | p ∧ k = key}) (count + ({k | p ∧ k = key} : Set Str).ncard) h := by
  by_cases holds : p
  · have only : {k | p ∧ k = key} = {key} := by simp [holds]
    rw [only, Set.union_singleton, Set.ncard_singleton]
    exact gains.gained holds
  · have none_ : {k | p ∧ k = key} = ∅ := by simp [holds]
    rw [none_, Set.union_empty, Set.ncard_empty, Nat.cast_zero, add_zero]
    exact gains.kept holds

/-- What the surroundings answer is the same. -/
def SameAnswers (h h' : Host) : Prop := h'.queueIds = h.queueIds ∧ h'.clock = h.clock

section
variable {keys : Set Str} {count : Int}

/-- Tries for an application that is not cached yet. -/
theorem triple_cacheHitTries_first (queueId : Nat) (now : Duration) (tries : Nat) (f : CacheFilter)
    (app : Application) :
    Triple Host.exec (Holding keys count) (CacheFilter.cacheHitTries queueId now tries f app 0) fun _ =>
      Gains keys count app.cacheKey.asString
        (tries ≠ 0 ∧ (limitCheck now f.state.reqData.metrics.entries app {}).passes) := by
  cases tries with
  | zero =>
    have last : Calm f.afterLastTry := calm_only ⟨trivial, fun _ => trivial⟩
    exact (last keys count).mono (fun _ held => held) fun _ _ held => ⟨fun gains => absurd rfl gains.1, fun _ => held⟩
  | succ tries =>
    refine triple_bind (triple_limitCheckAndUpdate f.state.reqData app 0 now) fun r => ?_
    match r with
    | .ok (.authorized info) =>
      intro h left
      refine (triple_onAuthorizedTry _ count f queueId now 0 info h left.2).mono fun h' r held a is => ?_
      exact ⟨fun _ => held a is, fun stays => absurd ⟨Nat.succ_ne_zero tries, left.1⟩ stays⟩
    | .ok (.rateLimited info) =>
      have limited : Calm (f.onRateLimitedTry info) := calm_only ⟨trivial, fun _ => trivial⟩
      intro h left
      refine (limited keys count h left.2).mono fun h' r held a is => ?_
      exact ⟨fun gains => absurd gains.2 left.1, fun _ => held a is⟩
    | .error (.cacheUpdateFail reason) => exact fun h left => absurd rfl left.1
    | .error .durationOverflow =>
      exact triple_done fun h left => ⟨fun gains => absurd gains.2 left.1, fun _ => left.2⟩

/-- Of the context only the tries and the metrics count. -/
theorem triple_handleCacheHit_first (f : CacheFilter) {f' : CacheFilter} (config : f'.config = f.config)
    (metrics : f'.state.reqData.metrics = f.state.reqData.metrics) (app : Application) (h : Host) :
    Triple Host.exec (fun h' => Holding keys count h' ∧ SameAnswers h h') (f'.handleCacheHit app 0) fun _ =>
      Gains keys count app.cacheKey.asString (f.FilesFirst h app) := by
  rintro h' ⟨holding, queues, clock⟩
  rw [handleCacheHit_eq]
  unfold CacheFilter.FilesFirst
  rw [← config, ← metrics, ← queues, ← clock]
  refine alone_call.mpr (alone_call.mpr ?_)
  have held : Holding keys count (Host.exec (.incrementMetric .cacheHits 1) h').2 :=
    holding.exec (show Stat.cacheHits ≠ .cachedApps by decide)
  simp only [Host.exec] at held ⊢
  cases h'.queueIds queueName with
  | none =>
    rintro _ ⟨⟩
    exact ⟨fun files => absurd files.1 (by simp), fun _ => held⟩
  | some queueId =>
    refine alone_call.mpr ?_
    simp only [Host.exec]
    revert held
    cases h'.clock with
    | none =>
      rintro held _ ⟨⟩
      exact ⟨fun files => absurd files.2.2.2 (by simp), fun _ => held⟩
    | some now =>
      intro held
      cases addHierarchyToMetrics app.metricHierarchy f'.state.reqData.metrics with
      | none => exact triple_trap _ held
      | some metrics =>
        refine (triple_cacheHitTries_first queueId now f'.config.maxTries f' app _ held).mono fun _ _ gains a is => ?_
        simpa using gains a is

/-- A mapping is written over whatever the user_key holds. -/
theorem triple_recordAppId (f : CacheFilter) (appId : AppId) (h : Host) :
    Triple Host.exec (fun h' => Holding keys count h' ∧ h' = h) (f.recordAppId appId) fun r h' =>
      (Holding (keys \ {key | f.state.cacheKey.appId = .userKey key}) count h' ∧ SameAnswers h h') ∧
        ∃ f', r = (f', .ok ()) ∧ f'.config = f.config ∧ f'.state.reqData.metrics = f.state.reqData.metrics := by
  rintro _ ⟨holding, rfl⟩
  refine (alone_recordAppId f appId _).mono fun h' r recorded => ?_
  obtain ⟨rfl, f', rfl, same⟩ := recorded
  rintro _ ⟨⟩
  refine ⟨⟨?_, rfl, rfl⟩, f', rfl, same⟩
  unfold SharedData.recorded
  cases f.state.cacheKey.appId with
  | appId id key =>
    have none_ : {k : Str | AppIdentifier.appId id key = .userKey k} = ∅ := by simp
    rwa [none_, Set.sdiff_empty]
  | userKey userKey =>
    have only : {k : Str | AppIdentifier.userKey userKey = .userKey k} = {userKey} := by simp
    rw [only]
    exact holding.put_other userKey (by simp)

theorem triple_handleAuthResponse (f : CacheFilter) (data : AuthorizationStatus) (h : Host) :
    Triple Host.exec (fun h' => Holding keys count h' ∧ h' = h) (f.handleAuthResponse data) fun _ =>
      Holding (keys \ f.mappedKeys data ∪ f.filedKeys h data) (count + (f.filedKeys h data).ncard) := by
  unfold CacheFilter.handleAuthResponse
  cases ids : CacheFilter.authResponseIds data with
  | error e =>
    have unmapped : f.mappedKeys data = ∅ := by simp [CacheFilter.mappedKeys, ids]
    have unfiled : f.filedKeys h data = ∅ := by simp [CacheFilter.filedKeys, ids]
    rw [unmapped, unfiled, Set.sdiff_empty, Set.union_empty, Set.ncard_empty, Nat.cast_zero, add_zero]
    exact triple_done fun _ held => held.1
  | ok carried =>
    obtain ⟨appKeys, appId, serviceId⟩ := carried
    have mapped : f.mappedKeys data = {key | f.state.cacheKey.appId = .userKey key} := by
      simp [CacheFilter.mappedKeys, ids]
    rw [mapped]
    refine triple_bind (triple_recordAppId f appId h) fun r => triple_given fun recorded => ?_
    obtain ⟨f', rfl, config, metrics⟩ := recorded
    dsimp only
    cases formed : CacheFilter.authResponseApplication data appKeys appId serviceId with
    | none =>
      have unfiled : f.filedKeys h data = ∅ := by simp [CacheFilter.filedKeys, ids, formed]
      rw [unfiled, Set.union_empty, Set.ncard_empty, Nat.cast_zero, add_zero]
      exact triple_done fun _ held => held.1
    | some app =>
      have filed : f.filedKeys h data = {k | f.FilesFirst h app ∧ k = app.cacheKey.asString} := by
        simp [CacheFilter.filedKeys, ids, formed]
      rw [filed]
      refine triple_bind (triple_handleCacheHit_first f ?_ ?_ app h) fun hit => ?_
      · exact config
      · exact metrics
      match hit with
      | (_, .ok ()) | (_, .error _) => exact triple_done fun _ gains => gains.union

section
variable {f : CacheFilter} {response : CallResponse} {P Q : Host → Prop}
  (harmless : ∀ c h, Harmless c → Q h → Q (Host.exec c h).2)
  (handled : ∀ data, CacheFilter.answer response = some data →
    Triple Host.exec P (f.handleAuthResponse data) fun _ => Q)
  (unanswered : CacheFilter.answer response = none → ∀ h, P h → Q h)
include harmless handled unanswered

/-- The handling of a response, by that of its answer: it decides what the
waiters are told, unless the answer is an error. -/
theorem triple_onCallResult {status : Str} (answered : response.status = some status) :
    Triple Host.exec P (f.onCallResult status response.body) fun r h =>
      Q h ∧ (r.2 = none ↔ ErrorReply response) := by
  have quiet : ∀ {α : Type} {p : HostProg α}, p.Only Harmless → Triple Host.exec Q p fun _ => Q :=
    fun only => triple_only only harmless
  have fails : ∀ (f' : CacheFilter) (action : Option WaiterAction), (action = none ↔ ErrorReply response) →
      Triple Host.exec Q (f'.requestProcessFailure >>= fun f => pure (f, action)) fun r h =>
        Q h ∧ (r.2 = none ↔ ErrorReply response) := by
    intro f' action decides
    refine triple_bind (quiet ((only_requestProcessFailure f').mono fun _ => harmless_failureCall)) fun _ => ?_
    exact triple_done fun h held => ⟨held, decides⟩
  unfold CacheFilter.onCallResult
  split
  · rename_i arrived
    have error : ErrorReply response ↔ ∃ code, response.body = some (.parsed (.error code)) := by
      simp [ErrorReply, answered, arrived]
    match body : response.body with
    | none | some .unparsable =>
      refine (fails f _ (by simp [error, body])).mono (unanswered ?_) fun _ _ held => held
      simp [CacheFilter.answer, answered, body]
    | some .notUtf8 => exact triple_trap
    | some (.parsed (.error code)) =>
      refine (fails f _ (by simp [error, body])).mono (unanswered ?_) fun _ _ held => held
      simp [CacheFilter.answer, answered, body]
    | some (.parsed (.status data)) =>
      have decides : ∀ action : WaiterAction, some action = none ↔ ErrorReply response := by simp [error, body]
      show Triple Host.exec P (f.onAuthorization (.status data)) _
      unfold CacheFilter.onAuthorization
      dsimp only
      split
      · rename_i goesOn
        have is : CacheFilter.answer response = some data := by
          simp [CacheFilter.answer, answered, body, arrived, goesOn]
        refine triple_bind (handled data is) fun r => ?_
        match r with
        | (f', .error e) => exact fails f' _ (decides _)
        | (_, .ok ()) => exact triple_done fun h held => ⟨held, decides _⟩
      · rename_i refused
        have none_ : CacheFilter.answer response = none := by simp [CacheFilter.answer, answered, body, refused]
        have counts : (incrementStat .unauthorized).Only Harmless :=
          ⟨show Stat.unauthorized ≠ .cachedApps by decide, fun _ => trivial⟩
        refine triple_bind ((quiet counts).mono (unanswered none_) fun _ _ held => held) fun _ => ?_
        cases data.reason with
        | none => exact triple_trap
        | some reason =>
          have sends : (sendHttpResponse 403 (some reason)).Only Harmless := ⟨trivial, fun _ => trivial⟩
          exact triple_bind (quiet sends) fun _ => triple_done fun h held => ⟨held, decides _⟩
  · rename_i timeout
    have late : ¬ErrorReply response :=
      fun error => error.1 (answered.trans (congrArg some (not_ne_iff.mp timeout)))
    have none_ : CacheFilter.answer response = none := by
      unfold CacheFilter.answer
      rw [answered]
      split
      · rename_i is _
        exact if_neg fun both => timeout (Option.some.inj is ▸ both.1)
      · rfl
    have counts : (incrementStat .authorizeTimeouts).Only Harmless :=
      ⟨show Stat.authorizeTimeouts ≠ .cachedApps by decide, fun _ => trivial⟩
    refine triple_bind ((quiet counts).mono (unanswered none_) fun _ _ held => held) fun _ => ?_
    exact fails f _ (by simp [late])

end

/-- The lock of the context, where an application is misread for it when it is freed. -/
def freedMisread (f : CacheFilter) (response : CallResponse) (misread : Prop) : Set Str :=
  {key | ¬ErrorReply response ∧ key = lockKey f ∧ misread}

theorem triple_onHttpCallResponse {f : CacheFilter} {response : CallResponse} {P : Host → Prop} {misread : Prop}
    (handled : ∀ data, CacheFilter.answer response = some data →
      Triple Host.exec P (f.handleAuthResponse data) fun _ h =>
        Holding keys count h ∧ (h.shared.Misread (lockKey f) ↔ misread))
    (unanswered : CacheFilter.answer response = none →
      ∀ h, P h → Holding keys count h ∧ (h.shared.Misread (lockKey f) ↔ misread)) :
    Triple Host.exec P (f.onHttpCallResponse response) fun _ =>
      Holding (keys \ freedMisread f response misread) count := by
  have harmless : ∀ c h, Harmless c → (Holding keys count h ∧ (h.shared.Misread (lockKey f) ↔ misread)) →
      Holding keys count (Host.exec c h).2 ∧ ((Host.exec c h).2.shared.Misread (lockKey f) ↔ misread) := by
    intro c h harmless held
    have rests := resting_only (p := ask c) ⟨harmless, fun _ => trivial⟩ h h (.start held.1) _ rfl
    exact ⟨rests.holding, by rw [rests.shared]; exact held.2⟩
  unfold CacheFilter.onHttpCallResponse
  cases answered : response.status with
  | none => exact triple_trap
  | some status =>
    refine triple_bind (triple_onCallResult harmless handled unanswered answered) fun decided => ?_
    match decided with
    | (f', none) =>
      refine triple_done fun h held => ?_
      have none_ : freedMisread f response misread = ∅ := by simp [freedMisread, held.2.mp rfl]
      rw [none_, Set.sdiff_empty]
      exact held.1.1
    | (f', some action) =>
      rintro h ⟨⟨holding, misreads⟩, decides⟩
      have frees : ¬ErrorReply response := mt decides.mpr (by simp)
      have same : freedMisread f response misread = h.shared.misreadAt (lockKey f) := by
        simp [freedMisread, SharedData.misreadAt, frees, misreads]
      rw [same]
      refine triple_bind (resting_freeCalloutLock f.state.cacheKey action h) (fun _ => ?_) h (.start holding)
      exact calm_done f' _ _

namespace SingletonService

/-- What a response makes of the cache. -/
inductive Refresh where
  | files (app : Application)
  | refuses
  | nothing

def Refresh.ofApplication : Option Application → Refresh
  | some app => .files app
  | none => .nothing

/-- An application is refreshed, or that of the token is refused. -/
def refreshOf (response : CallResponse) : Refresh :=
  match response.status, response.body with
  | some status, some (.parsed (.status data)) =>
    if status = timeoutStatus then .nothing
    else if data.isAuthorized || status = rateLimitStatus then .ofApplication (refreshedOf data)
    else .refuses
  | some status, some (.parsed (.error _)) => if status = timeoutStatus then .nothing else .refuses
  | _, _ => .nothing

/-- The applications and the gauge after a response to a call with this token. -/
def Refreshed (self : SingletonService) (tokenId : Nat) (keys : Set Str) (count : Int) : Refresh → Host → Prop
  | .files app => Holding (insert app.cacheKey.asString keys) count
  | .refuses =>
    match self.authRequests.lookup tokenId with
    | some cacheKey => Holding (keys \ {cacheKey.asString}) (count - 1)
    | none => Holding keys count
  | .nothing => Holding keys count

theorem triple_refreshApplication (self : SingletonService) (tokenId : Nat) (data : AuthorizationStatus) :
    Triple Host.exec (Holding keys count) (refreshApplication data) fun r h =>
      self.Refreshed tokenId keys count (.ofApplication (refreshedOf data)) h ∧ r ≠ .error .authResponse := by
  rcases refreshApplication_spec data with
    ⟨none_, traps | ⟨e, own, fails⟩⟩ | ⟨app, result, formed, own, files⟩
  · rw [traps]
    exact triple_trap
  · rw [fails, none_]
    exact triple_done fun _ held => ⟨held, by simpa using own⟩
  · rw [files, formed]
    refine triple_bind (triple_setApplicationToCache app 0) fun r => triple_done fun h written => ⟨?_, own r⟩
    cases r with
    | ok => exact written
    | error e => exact absurd rfl written.1

theorem triple_handleAuthFailure (self : SingletonService) (tokenId : Nat) :
    Triple Host.exec (Holding keys count) (self.handleAuthFailure tokenId) fun _ =>
      self.Refreshed tokenId keys count .refuses := by
  unfold handleAuthFailure Refreshed
  dsimp only
  cases self.authRequests.lookup tokenId with
  | none => exact calm_done _ _ _
  | some cacheKey =>
    have erased : Triple Host.exec (Holding keys count) (removeApplicationFromCache cacheKey.asString) fun _ =>
        Holding (keys \ {cacheKey.asString}) count := by
      intro h holding
      refine alone_bind.mpr (alone_call.mpr ?_)
      simp only [Host.exec, h.shared.set_overwrite _ _ SharedData.no_cas]
      rintro _ ⟨⟩
      exact holding.put_other _ (by simp)
    refine triple_bind erased fun _ => ?_
    rintro h holding _ ⟨⟩
    refine ⟨holding.applications, ?_, holding.filed⟩
    rw [← holding.gauge]
    exact Function.update_self Stat.cachedApps _ h.metrics

theorem refreshOf_timeout {response : CallResponse} (late : response.status = some timeoutStatus) :
    refreshOf response = .nothing := by
  unfold refreshOf
  rw [late]
  split
  · rename_i is _
    exact if_pos (Option.some.inj is).symm
  · rename_i is _
    exact if_pos (Option.some.inj is).symm
  · rfl

theorem triple_onHttpCallResponse (self : SingletonService) (tokenId : Nat) (response : CallResponse) :
    Triple Host.exec (Holding keys count) (self.onHttpCallResponse tokenId response) fun _ =>
      self.Refreshed tokenId keys count (refreshOf response) := by
  unfold onHttpCallResponse
  cases answered : response.status with
  | none => exact triple_trap
  | some status =>
    dsimp only
    split
    · rename_i arrived
      unfold refreshOf
      rw [answered]
      match response.body with
      | none =>
        dsimp only
        split
        · exact calm_done _ _ _
        · exact calm_done _ _ _
      | some .notUtf8 => exact triple_trap
      | some .unparsable => exact triple_done fun _ held => held
      | some (.parsed (.error code)) =>
        dsimp only
        rw [if_neg arrived]
        exact triple_handleAuthFailure self tokenId
      | some (.parsed (.status data)) =>
        dsimp only
        rw [if_neg arrived]
        unfold handleAuthResponse
        dsimp only
        split
        · refine triple_bind (triple_refreshApplication self tokenId data) fun r => triple_given fun other => ?_
          match r with
          | .ok () => exact triple_done fun _ held => held
          | .error .authResponse => exact absurd rfl other
          | .error .authAppKeysMissing | .error (.emptyAuthUsages _) | .error .negativeTimeErr
          | .error (.setCacheFailure ..) | .error (.getCacheFailure _) | .error .authResponseProcess
          | .error (.updateMetricsFail _) => exact triple_done fun _ held => held
        · exact triple_handleAuthFailure self tokenId
    · rename_i timeout
      rw [refreshOf_timeout (answered.trans (congrArg some (not_ne_iff.mp timeout)))]
      refine triple_bind (calm_incrementStat (by decide) keys count) fun _ => ?_
      split
      · exact calm_done _ _ _
      · split
        · exact calm_done _ _ _
        · exact calm_done _ _ _

end SingletonService
end

/-! Runs -/

/-- The host and the contexts with a call out, beside the singleton. -/
structure Deployment where
  world : World
  singleton : SingletonService

/-- The gauge says how many keys hold an application. -/
def Counted (h : Host) : Prop := Ledger.Census h.shared.applications (h.metrics .cachedApps)

/-- The key of an application that is refreshed holds one before, and so does
the one that is erased by a refusal. -/
def SingletonService.RefreshesCounted (self : SingletonService) (tokenId : Nat) (keys : Set Str) :
    SingletonService.Refresh → Prop
  | .files app => app.cacheKey.asString ∈ keys
  | .refuses => ∀ cacheKey, self.authRequests.lookup tokenId = some cacheKey → cacheKey.asString ∈ keys
  | .nothing => True

/-- No application is misread for the lock that is asked for, if any is. -/
def LockReads (h : Host) (asks : Option CacheFilter) : Prop :=
  ∀ f ∈ asks, (h.queueIds (threadQueueName f.rootId)).isSome → ¬h.shared.Misread (lockKey f)

/-- No user_key is mapped that holds an application, an application is stored
where there is none, and none is misread for the lock that is freed. -/
def CacheFilter.AnswerCounted (f : CacheFilter) (response : CallResponse) (h : Host) : Prop :=
  (ErrorReply response ∨ ¬h.shared.Misread (lockKey f)) ∧
    ∀ data, answer response = some data →
      h.shared.applications ∩ f.mappedKeys data = ∅ ∧ h.shared.applications ∩ f.filedKeys h data = ∅ ∧
        ∀ app' ∈ f.filedApps h data, app'.cacheKey.asString = lockKey f →
          (SharedValue.application app').lock = none

namespace Deployment

inductive Callback where
  | filter (delivery : Delivery)
  | responseHeaders (f : CacheFilter)
  | singleton (calls : ApiCalls) (sizes : Sizes) (occasion : Occasion)

/-- One whole callback. -/
inductive Step : Deployment → Callback → Deployment → Prop
  | filter {s delivery w} (delivers : Delivers s.world delivery w) : Step s (.filter delivery) { s with world := w }
  | responseHeaders {s f t action h}
      (run : f.onHttpResponseHeaders.run Host.exec s.world.host = ⟨t, .done action, h⟩) :
      Step s (.responseHeaders f) { s with world.host := h }
  | singleton {s calls sizes occasion t self built h}
      (run : (occasion.callback calls sizes s.singleton).run Host.exec s.world.host = ⟨t, .done (self, built), h⟩) :
      Step s (.singleton calls sizes occasion) { world := { s.world with host := h }, singleton := self }

inductive Reached (guard : Deployment → Callback → Prop) (init : Deployment) : Deployment → Prop
  | start : Reached guard init init
  | next {s callback s'} : Reached guard init s → Step s callback s' → guard s callback → Reached guard init s'

/-- The condition on a callback: no application is misread for the lock that a
request asks for or a response frees, a filter maps no user_key that holds an
application and stores its application where there is none, and the singleton
refreshes and erases only where there is one. -/
def KeepsCount (s : Deployment) : Callback → Prop
  | .filter (.requestHeaders lib _ f headers) => LockReads s.world.host (f.misses lib headers s.world.host.shared)
  | .filter (.callResponse flight response) => flight.context.AnswerCounted response s.world.host
  | .singleton _ _ (.response tokenId response) =>
    s.singleton.RefreshesCounted tokenId s.world.host.shared.applications (SingletonService.refreshOf response)
  | _ => True

/-- No application is cached, and the gauge stands at zero. -/
def Uncached (s : Deployment) : Prop :=
  s.world.host.shared.applications = ∅ ∧ s.world.host.metrics .cachedApps = 0

end Deployment

theorem Holding.counted_iff {keys : Set Str} {count : Int} {h : Host} (holding : Holding keys count h) :
    Counted h ↔ Ledger.Census keys count := by
  obtain ⟨rfl, rfl, _⟩ := holding
  exact Iff.rfl

theorem Holding.of_filed {h : Host} (filed : Filed h.shared) :
    Holding h.shared.applications (h.metrics .cachedApps) h := ⟨rfl, rfl, filed⟩

theorem Calm.counted {α : Type} {p : HostProg α} {h h' : Host} {t : List HostEvent} {a : α} (calm : Calm p)
    (filed : Filed h.shared) (run : p.run Host.exec h = ⟨t, .done a, h'⟩) :
    (Counted h' ↔ Counted h) ∧ Filed h'.shared := by
  have held := (calm _ _).run (.of_filed filed) run
  exact ⟨held.counted_iff, held.filed⟩

theorem filedKeys_finite (f : CacheFilter) (h : Host) (data : AuthorizationStatus) :
    (f.filedKeys h data).Finite := by
  refine Set.Subsingleton.finite ?_
  rintro _ ⟨_, _, _, _, ids, formed, _, rfl⟩ _ ⟨_, _, _, _, ids', formed', _, rfl⟩
  cases ids.symm.trans ids'
  cases formed.symm.trans formed'
  rfl

theorem SharedData.Misread.mem {d : SharedData} {key : Str} (misread : d.Misread key) : key ∈ d.applications := by
  obtain ⟨app, held, _⟩ := misread
  exact ⟨app, held⟩

theorem inter_askedMisread {h : Host} {asks : Option CacheFilter} :
    h.shared.applications ∩ askedMisread asks h = ∅ ↔ LockReads h asks := by
  constructor
  · intro none_ f member queue misread
    exact Set.notMem_empty (lockKey f) (none_ ▸ ⟨misread.mem, f, member, queue, rfl, misread⟩)
  · intro reads
    refine Set.eq_empty_iff_forall_notMem.mpr ?_
    rintro _ ⟨_, f, member, queue, rfl, misread⟩
    exact reads f member queue misread

/-- The headers of a request. -/
theorem requested_counted_iff {lib : ThirdParty} {rounds : Nat} {f : CacheFilter} {headers : Str → Option Str}
    {h h' : Host} {t : List HostEvent} {out : CacheFilter × Action} (filed : Filed h.shared) (counted : Counted h)
    (run : (f.onHttpRequestHeaders lib rounds headers).run Host.exec h = ⟨t, .done out, h'⟩) :
    (Counted h' ↔ LockReads h (f.misses lib headers h.shared)) ∧ Filed h'.shared := by
  have held := (resting_onHttpRequestHeaders lib rounds f headers h).run (.start (.of_filed filed)) run
  refine ⟨?_, held.filed⟩
  rw [held.counted_iff, Ledger.census_lost_iff counted, inter_askedMisread]

theorem inter_freedMisread {f : CacheFilter} {response : CallResponse} {misread : Prop} {keys : Set Str}
    (stored : misread → lockKey f ∈ keys) :
    keys ∩ freedMisread f response misread = ∅ ↔ ErrorReply response ∨ ¬misread := by
  constructor
  · intro none_
    by_contra both
    obtain ⟨frees, reads⟩ := not_or.mp both
    have misread := not_not.mp reads
    exact Set.notMem_empty (lockKey f) (none_ ▸ ⟨stored misread, frees, rfl, misread⟩)
  · intro kept
    refine Set.eq_empty_iff_forall_notMem.mpr ?_
    rintro _ ⟨_, frees, rfl, misread⟩
    exact kept.elim frees fun reads => reads misread

theorem not_error_of_answer {response : CallResponse} {data : AuthorizationStatus}
    (answered : CacheFilter.answer response = some data) : ¬ErrorReply response := by
  rintro ⟨_, code, body⟩
  unfold CacheFilter.answer at answered
  rw [body] at answered
  split at answered
  · rename_i is
    cases is
  · cases answered

/-- What is misread in the end, where nothing was stored or mapped over. -/
theorem misreadAfter_iff {f : CacheFilter} {h : Host} {data : AuthorizationStatus}
    (fresh : h.shared.applications ∩ f.filedKeys h data = ∅) : f.MisreadAfter h data ↔
      (∃ app' ∈ f.filedApps h data, app'.cacheKey.asString = lockKey f ∧ (SharedValue.application app').lock.isSome) ∨
        h.shared.Misread (lockKey f) := by
  refine or_congr_right (and_iff_right_of_imp fun misread files => ?_)
  exact Set.notMem_empty (lockKey f) (fresh ▸ ⟨misread.mem, files⟩)

/-- The response to an authorize call. -/
theorem responded_counted_iff {f : CacheFilter} {response : CallResponse} {h h' : Host} {t : List HostEvent}
    {f' : CacheFilter} (filed : Filed h.shared) (counted : Counted h)
    (run : (f.onHttpCallResponse response).run Host.exec h = ⟨t, .done f', h'⟩) :
    (Counted h' ↔ f.AnswerCounted response h) ∧ Filed h'.shared := by
  cases answered : CacheFilter.answer response with
  | none =>
    have held := (triple_onHttpCallResponse (P := fun s => Holding _ _ s ∧ s = h)
      (fun data is => by cases answered.symm.trans is)
      fun _ s start => ⟨start.1, by rw [start.2]⟩).run ⟨.of_filed filed, rfl⟩ run
    refine ⟨?_, held.filed⟩
    rw [held.counted_iff, Ledger.census_lost_iff counted, inter_freedMisread SharedData.Misread.mem]
    exact (and_iff_left fun data is => by cases answered.symm.trans is).symm
  | some data =>
    have held := (triple_onHttpCallResponse (P := fun s => Holding _ _ s ∧ s = h) (fun data' is => by
        cases answered.symm.trans is
        rintro s ⟨start, rfl⟩
        refine ((triple_handleAuthResponse f data s s ⟨start, rfl⟩).and
          (alone_handleAuthResponse_misread f data s)).mono fun h' r both a is => ?_
        exact ⟨both.1 a is, both.2⟩)
      fun none_ => by rw [answered] at none_; cases none_).run ⟨.of_filed filed, rfl⟩ run
    refine ⟨?_, held.filed⟩
    have stored : f.MisreadAfter h data → lockKey f ∈ h.shared.applications ∪ f.filedKeys h data := by
      rintro (⟨app', ⟨_, _, _, app, _, _, ids, formed, files, _, pass⟩, key, _⟩ | ⟨_, misread⟩)
      · exact Or.inr ⟨_, _, _, app, ids, formed, files, by rw [← key, limitCheck_pass_cacheKey pass]⟩
      · exact Or.inl misread.mem
    have frees := not_error_of_answer answered
    rw [held.counted_iff, Ledger.census_changed_iff counted (filedKeys_finite f h data), inter_freedMisread stored,
      or_iff_right frees]
    constructor
    · rintro ⟨kept, fresh, reads⟩
      rw [misreadAfter_iff fresh, not_or] at reads
      refine ⟨Or.inr reads.2, fun data' is => ?_⟩
      cases answered.symm.trans is
      exact ⟨kept, fresh, fun app' files key => Option.not_isSome_iff_eq_none.mp fun read =>
        reads.1 ⟨app', files, key, read⟩⟩
    · rintro ⟨reads, changes⟩
      obtain ⟨kept, fresh, notRead⟩ := changes data answered
      refine ⟨kept, fresh, (misreadAfter_iff fresh).not.mpr ?_⟩
      rintro (⟨app', files, key, read⟩ | misread)
      · rw [notRead app' files key] at read
        cases read
      · exact (reads.resolve_left frees) misread

theorem SingletonService.Refreshed.counted_iff {self : SingletonService} {tokenId : Nat} {refresh : Refresh}
    {h h' : Host} (refreshed : self.Refreshed tokenId h.shared.applications (h.metrics .cachedApps) refresh h')
    (counted : Counted h) :
    (Counted h' ↔ self.RefreshesCounted tokenId h.shared.applications refresh) ∧ Filed h'.shared := by
  cases refresh with
  | files app =>
    have held : Holding _ _ h' := refreshed
    exact ⟨held.counted_iff.trans (Ledger.census_insert_iff counted _), held.filed⟩
  | nothing =>
    have held : Holding _ _ h' := refreshed
    exact ⟨iff_of_true (held.counted_iff.mpr counted) trivial, held.filed⟩
  | refuses =>
    unfold Refreshed at refreshed
    unfold RefreshesCounted
    dsimp only at refreshed ⊢
    cases token : self.authRequests.lookup tokenId with
    | none =>
      rw [token] at refreshed
      have held : Holding _ _ h' := refreshed
      exact ⟨iff_of_true (held.counted_iff.mpr counted) (by simp), held.filed⟩
    | some cacheKey =>
      rw [token] at refreshed
      have held : Holding _ _ h' := refreshed
      refine ⟨?_, held.filed⟩
      rw [held.counted_iff, Ledger.census_erase_iff counted]
      simp

namespace Deployment

/-- One callback keeps the count exactly if it meets the condition. -/
theorem Step.counted_iff {s s' : Deployment} {callback : Callback} (step : Step s callback s')
    (filed : Filed s.world.host.shared) (counted : Counted s.world.host) :
    (Counted s'.world.host ↔ s.KeepsCount callback) ∧ Filed s'.world.host.shared := by
  have quiet : ∀ {α : Type} {p : HostProg α} {t : List HostEvent} {a : α} {h : Host}, Calm p →
      p.run Host.exec s.world.host = ⟨t, .done a, h⟩ → (Counted h ↔ True) ∧ Filed h.shared := by
    intro α p t a h calm run
    obtain ⟨same, filed'⟩ := calm.counted filed run
    exact ⟨iff_of_true (same.mpr counted) trivial, filed'⟩
  cases step with
  | filter delivers =>
    cases delivers with
    | called run _ => exact requested_counted_iff filed counted run
    | settled run _ => exact requested_counted_iff filed counted run
    | responded _ run => exact responded_counted_iff filed counted run
    | served run => exact quiet (calm_rootOnQueueReady _ _) run
    | moved env =>
      obtain ⟨clock, dispatch, rfl⟩ := env
      exact ⟨iff_of_true counted trivial, filed⟩
  | responseHeaders run => exact quiet (calm_onHttpResponseHeaders _) run
  | @singleton calls sizes occasion t self built h run =>
    cases occasion with
    | queueReady => exact quiet (SingletonService.calm_onQueueReady calls sizes _) run
    | tick => exact quiet (SingletonService.calm_onTick calls _) run
    | response tokenId response =>
      have refreshed : Triple Host.exec (Holding s.world.host.shared.applications (s.world.host.metrics .cachedApps))
          ((Occasion.response tokenId response).callback calls sizes s.singleton)
          fun _ => s.singleton.Refreshed tokenId _ _ (SingletonService.refreshOf response) :=
        triple_bind (SingletonService.triple_onHttpCallResponse s.singleton tokenId response) fun _ =>
          triple_done fun _ held => held
      exact (refreshed.run (.of_filed filed) run).counted_iff counted

theorem Reached.mono {guard guard' : Deployment → Callback → Prop} {init s : Deployment}
    (reached : Reached guard init s) (weaker : ∀ s callback, guard s callback → guard' s callback) :
    Reached guard' init s := by
  induction reached with
  | start => exact .start
  | next _ step meets ih => exact .next ih step (weaker _ _ meets)

theorem Reached.counted {init s : Deployment} (uncached : Uncached init) (reached : Reached KeepsCount init s) :
    Filed s.world.host.shared ∧ Counted s.world.host := by
  induction reached with
  | start =>
    obtain ⟨none_, zero⟩ := uncached
    refine ⟨SharedData.filed_iff.mpr fun key app held => ?_, ?_⟩
    · have member : key ∈ init.world.host.shared.applications := ⟨app, held⟩
      rw [none_] at member
      exact member.elim
    · rw [Counted, none_, zero]
      exact Ledger.census_empty
  | next _ step meets ih =>
    obtain ⟨kept, filed⟩ := step.counted_iff ih.1 ih.2
    exact ⟨filed, kept.mpr meets⟩

end Deployment

/-- In a run whose callbacks meet the condition, the gauge of the cached
applications is right in every state; and the next callback keeps it right
exactly if it meets the condition too. -/
theorem cachedApps_counted {init s : Deployment} (uncached : init.Uncached)
    (reached : Deployment.Reached Deployment.KeepsCount init s) :
    Counted s.world.host ∧ 0 ≤ s.world.host.metrics .cachedApps ∧ ∀ callback s', Deployment.Step s callback s' →
      (Counted s'.world.host ↔ s.KeepsCount callback) := by
  obtain ⟨filed, counted⟩ := reached.counted uncached
  exact ⟨counted, counted.nonneg, fun callback s' step => (step.counted_iff filed counted).1⟩

/-! Two requests for the same application, by app_id and by user_key -/

/-- The context of the second request, with its call out. -/
def keyAskedNext : CacheFilter := { hitFilter 2 with state := keyAsked.state }

def keyRun : Prog.Ran HostCall HostCall.Reply Host (CacheFilter × Action) :=
  ((hitFilter 2).onHttpRequestHeaders hitLib 3 keyHeaders).run Host.exec hitRun.state

theorem keyRun_out : ∃ e ∈ keyRun.trace, Dispatches e :=
  ⟨⟨.dispatchHttpCall _, .ok 1⟩, List.mem_of_getElem? (rfl : keyRun.trace[5]? = _), _, 1, rfl⟩

def hitFlight : Flight := ⟨hitAsked, hitRun.trace, hitRun_out⟩

def keyFlight : Flight := ⟨keyAskedNext, keyRun.trace, keyRun_out⟩

/-- The callback of the first response. -/
def filedRun : Prog.Ran HostCall HostCall.Reply Host CacheFilter :=
  (hitAsked.onHttpCallResponse hitResponse).run Host.exec keyRun.state

/-- The callback of the second response, for the same application. -/
def refiledRun : Prog.Ran HostCall HostCall.Reply Host CacheFilter :=
  (keyAskedNext.onHttpCallResponse hitResponse).run Host.exec filedRun.state

def idleSingleton : SingletonService := .start (some 7) {}

def emptyDeployment : Deployment := ⟨⟨quietHost, []⟩, idleSingleton⟩

/-- Both requests have a call out. -/
def askedDeployment : Deployment := ⟨⟨keyRun.state, [keyFlight, hitFlight]⟩, idleSingleton⟩

def filedDeployment : Deployment := ⟨⟨filedRun.state, [keyFlight]⟩, idleSingleton⟩

def refiledDeployment : Deployment := ⟨⟨refiledRun.state, []⟩, idleSingleton⟩

theorem holding_quietHost : Holding ∅ 0 quietHost where
  applications := by
    refine Set.eq_empty_iff_forall_notMem.mpr ?_
    rintro key ⟨app, held⟩
    cases held
  gauge := rfl
  filed := filed_empty

theorem keyRun_done : ((hitFilter 2).onHttpRequestHeaders hitLib 3 keyHeaders).run Host.exec hitWorld.host =
    ⟨keyRun.trace, .done (keyAskedNext, .pause), keyRun.state⟩ := rfl

/-- The requests add no application. -/
theorem holding_hitRun : Holding ∅ 0 hitRun.state := by
  have held := (resting_onHttpRequestHeaders hitLib 3 (hitFilter 1) hitHeaders quietHost).run
    (.start holding_quietHost) hitRun_done
  rwa [Set.empty_sdiff] at held

theorem holding_keyRun : Holding ∅ 0 keyRun.state := by
  have held := (resting_onHttpRequestHeaders hitLib 3 (hitFilter 2) keyHeaders hitRun.state).run
    (.start holding_hitRun) keyRun_done
  rwa [Set.empty_sdiff] at held

theorem not_misread_of_uncached {d : SharedData} (uncached : d.applications = ∅) (key : Str) : ¬d.Misread key :=
  fun misread => Set.notMem_empty key (uncached ▸ misread.mem)

theorem filedDeployment_reached :
    Deployment.Reached Deployment.KeepsCount emptyDeployment filedDeployment := by
  have asked : Deployment.Step emptyDeployment (.filter (.requestHeaders hitLib 3 (hitFilter 1) hitHeaders))
      ⟨hitWorld, idleSingleton⟩ := .filter hitWorld_delivers
  have askedNext : Deployment.Step ⟨hitWorld, idleSingleton⟩
      (.filter (.requestHeaders hitLib 3 (hitFilter 2) keyHeaders)) askedDeployment := .filter (.called keyRun_done keyRun_out)
  have filed : Deployment.Step askedDeployment (.filter (.callResponse hitFlight hitResponse)) filedDeployment := by
    have run : ∃ f, (hitFlight.context.onHttpCallResponse hitResponse).run Host.exec keyRun.state =
        ⟨filedRun.trace, .done f, filedRun.state⟩ := ⟨_, rfl⟩
    obtain ⟨f, run⟩ := run
    have split : askedDeployment.world.flights = [keyFlight] ++ hitFlight :: [] := rfl
    exact .filter (.responded split run)
  have uncached := not_misread_of_uncached holding_quietHost.applications
  have uncachedNext := not_misread_of_uncached holding_hitRun.applications
  refine .next (.next (.next .start asked fun f _ _ => uncached _) askedNext fun f _ _ => uncachedNext _) filed ?_
  have none_ : askedDeployment.world.host.shared.applications = ∅ := holding_keyRun.applications
  refine ⟨Or.inr (not_misread_of_uncached none_ _), fun data is => ?_⟩
  cases is
  rw [none_]
  refine ⟨Set.empty_inter _, Set.empty_inter _, ?_⟩
  rintro app' ⟨_, _, _, app, _, _, ids, formed, _, _, pass⟩ key
  rw [limitCheck_pass_cacheKey pass] at key
  cases ids
  cases formed
  cases key

theorem cachedApps_counted_filed :
    Counted filedDeployment.world.host ∧ filedDeployment.world.host.metrics .cachedApps = 1 :=
  ⟨(cachedApps_counted ⟨holding_quietHost.applications, rfl⟩ filedDeployment_reached).1, rfl⟩

/-- The second response stores the application again, and counts it again. -/
theorem not_cachedApps_counted_refiled :
    Deployment.Reached (fun _ _ => True) emptyDeployment refiledDeployment ∧ emptyDeployment.Uncached ∧
      refiledDeployment.world.host.metrics .cachedApps = 2 ∧ ¬Counted refiledDeployment.world.host := by
  have uncached : emptyDeployment.Uncached := ⟨holding_quietHost.applications, rfl⟩
  have run : ∃ f, (keyFlight.context.onHttpCallResponse hitResponse).run Host.exec filedRun.state =
      ⟨refiledRun.trace, .done f, refiledRun.state⟩ := ⟨_, rfl⟩
  obtain ⟨f, run⟩ := run
  have split : filedDeployment.world.flights = [] ++ keyFlight :: [] := rfl
  have refiled : Deployment.Step filedDeployment (.filter (.callResponse keyFlight hitResponse)) refiledDeployment :=
    .filter (.responded split run)
  obtain ⟨filed, counted⟩ := filedDeployment_reached.counted uncached
  refine ⟨.next (filedDeployment_reached.mono fun _ _ _ => trivial) refiled trivial, uncached, rfl, fun again => ?_⟩
  obtain ⟨_, answers⟩ := (refiled.counted_iff filed counted).1.mp again
  obtain ⟨_, fresh, _⟩ := answers _ rfl
  have stored : hitKey ∈ filedDeployment.world.host.shared.applications := ⟨_, rfl⟩
  have files : hitKey ∈ keyAskedNext.filedKeys filedRun.state (reportedTwice [dayUsage]) :=
    ⟨_, _, _, _, rfl, rfl, ⟨rfl, rfl, by decide, _, rfl, trivial⟩, rfl⟩
  exact Set.notMem_empty hitKey (fresh ▸ ⟨stored, files⟩)

end ThreescaleCache
