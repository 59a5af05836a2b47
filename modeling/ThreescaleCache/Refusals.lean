import ThreescaleCache.CacheHitRules

namespace ThreescaleCache
open Interaction

/-- A local response that refuses the request. -/
def refuses : HostEvent → Bool
  | ⟨.sendHttpResponse status _, _⟩ => 400 ≤ status && status < 500
  | _ => false

/-- The request is not released before it was refused locally. -/
def HeldBack (t : List HostEvent) : Prop :=
  ∀ before after, t = before ++ ⟨.resumeHttpRequest, ()⟩ :: after → ∃ e ∈ before, refuses e

/-- All readings of the clock gave `now`. -/
def ClockAt (now : Option Duration) (t : List HostEvent) : Prop :=
  ∀ reading, ⟨.getCurrentTime, reading⟩ ∈ t → reading = now

/-- The knowledge is whether the request has been refused. -/
def holding (now : Option Duration) : HostProtocol Bool where
  may := fun refused c => match c with
    | .resumeHttpRequest => refused = true
    | _ => True
  next := fun refused c reply => match c, reply with
    | .getCurrentTime, reading => if reading = now then some refused else none
    | .sendHttpResponse status body, _ =>
      some (refused || refuses ⟨.sendHttpResponse status body, ()⟩)
    | _, _ => some refused

theorem holding_track {now : Option Duration} {t : List HostEvent} {refused refused' : Bool} :
    (holding now).track refused t = some refused' ↔
      ClockAt now t ∧ refused' = (refused || t.any refuses) := by
  induction t generalizing refused with
  | nil => simp [Protocol.track, ClockAt, eq_comm]
  | cons e t ih =>
    obtain ⟨c, reply⟩ := e
    have clock : ClockAt now (⟨c, reply⟩ :: t) ↔ ClockAt now [⟨c, reply⟩] ∧ ClockAt now t := by
      simp only [ClockAt, List.mem_cons, List.not_mem_nil, or_false]
      exact ⟨fun h => ⟨fun r at_ => h r (Or.inl at_), fun r at_ => h r (Or.inr at_)⟩,
        fun h r at_ => at_.elim (h.1 r) (h.2 r)⟩
    have head : ∀ refused₁, (holding now).next refused c reply = some refused₁ ↔
        ClockAt now [⟨c, reply⟩] ∧ refused₁ = (refused || refuses ⟨c, reply⟩) := by
      intro refused₁
      cases c <;> simp [holding, refuses, ClockAt, eq_comm]
    simp only [Protocol.track, Option.bind_eq_some_iff, head, ih, clock, List.any_cons]
    constructor
    · intro fact
      obtain ⟨_, ⟨first, rfl⟩, rest, rfl⟩ := fact
      exact ⟨⟨first, rest⟩, Bool.or_assoc ..⟩
    · intro fact
      obtain ⟨⟨first, rest⟩, rfl⟩ := fact
      exact ⟨_, ⟨first, rfl⟩, rest, (Bool.or_assoc ..).symm⟩

/-- Following the protocol is holding the request back on every path, also
where a result `lets` it through. -/
theorem follows_holding_iff {α : Type} (now : Option Duration) (lets : α → Prop) (p : HostProg α) :
    Follows (holding now) (fun refused a => lets a → refused = true) p false ↔
      ∀ t q, Prog.Path p t q → ClockAt now t →
        HeldBack t ∧ ∀ a, q = .done a → lets a → ∃ e ∈ t, refuses e := by
  rw [follows_iff_paths]
  constructor
  · intro paths t q path clock
    obtain ⟨allowed, result⟩ := paths t q path
    refine ⟨?_, ?_⟩
    · intro before after split
      have earlier : ClockAt now before := fun reading member =>
        clock reading (by rw [split]; exact List.mem_append_left _ member)
      exact List.any_eq_true.mp
        (allowed before _ _ after _ split (holding_track.mpr ⟨earlier, rfl⟩))
    · intro a done let_
      exact List.any_eq_true.mp (result a _ done (holding_track.mpr ⟨clock, rfl⟩) let_)
  · intro held t q path
    refine ⟨?_, ?_⟩
    · intro before c reply after refused split known
      obtain ⟨clock, rfl⟩ := holding_track.mp known
      cases c with
      | resumeHttpRequest =>
        subst split
        obtain ⟨k, here⟩ := path_reaches path
        have upTo : Prog.Path p (before ++ [⟨.resumeHttpRequest, ()⟩]) (k ()) :=
          here.append (.next .start)
        have clock' : ClockAt now (before ++ [⟨.resumeHttpRequest, ()⟩]) := by
          intro reading member
          rcases List.mem_append.mp member with old | new
          · exact clock reading old
          · cases List.mem_singleton.mp new
        exact List.any_eq_true.mpr ((held _ _ upTo clock').1 before [] rfl)
      | _ => trivial
    · intro a refused done known let_
      obtain ⟨clock, rfl⟩ := holding_track.mp known
      exact List.any_eq_true.mpr ((held t q path clock).2 a done let_)

/-! The callback of a refusing response -/

theorem holding_keeps {now : Option Duration} {A : HostCall → Prop}
    (other : ∀ c, A c → ¬(c = .resumeHttpRequest ∨ c = .getCurrentTime ∨
      ∃ status body, c = .sendHttpResponse status body)) :
    (holding now).Keeps (fun refused refused' => refused' = refused) A where
  refl := fun _ => rfl
  trans := fun first second => second.trans first
  may := by
    intro refused c a
    cases c with
    | resumeHttpRequest => exact absurd (Or.inl rfl) (other _ a)
    | _ => trivial
  next := by
    intro refused c reply refused' a known
    cases c with
    | getCurrentTime => exact absurd (Or.inr (Or.inl rfl)) (other _ a)
    | sendHttpResponse => exact absurd (Or.inr (Or.inr ⟨_, _, rfl⟩)) (other _ a)
    | _ => exact (Option.some.inj known).symm

theorem holding_keeps_free {now : Option Duration} {key : Str} :
    (holding now).Keeps (fun refused refused' => refused' = refused) (FreeCall key) :=
  holding_keeps fun c free => by cases free <;> simp

/-- A failure in `failure_mode_deny` refuses the request before it resumes it. -/
theorem holding_requestProcessFailure {now : Option Duration} {f : CacheFilter} {refused : Bool}
    (deny : f.config.failureModeDeny = true) :
    Follows (holding now) (fun _ _ => True) f.requestProcessFailure refused := by
  unfold CacheFilter.requestProcessFailure onlyIf
  simp only [CacheFilter.withRateLimitInfo, deny, if_true]
  refine ⟨trivial, fun _ refused' known => ⟨?_, fun _ _ _ => trivial⟩⟩
  have now_ : refused' = true := by
    rw [← Option.some.inj known]
    simp [refuses]
  exact now_

/-- The cache hit flow on a rebuilt application passes at the first try, or
is left without one. -/
def PassesLocally (f : CacheFilter) (app : Application) (now : Duration) : Prop :=
  (addHierarchyToMetrics app.metricHierarchy f.state.reqData.metrics).isSome ∧
    (f.config.maxTries = 0 ∨
      ∃ app' info, limitCheck now f.state.reqData.metrics.entries app {} = .pass app' info)

/-- A first try that does not pass is the last one. -/
theorem holding_cacheHitTries {f : CacheFilter} {app : Application} {cas queueId : Nat}
    {now : Option Duration} {time : Duration} (some_ : f.config.maxTries ≠ 0)
    (stop : ∀ app' info, limitCheck time f.state.reqData.metrics.entries app {} ≠ .pass app' info) :
    Follows (holding now) (fun refused r => r.1.config = f.config ∧ (r.2 = .ok () → refused = true))
      (CacheFilter.cacheHitTries queueId time f.config.maxTries f app cas) false := by
  obtain ⟨tries, all⟩ := Nat.exists_eq_succ_of_ne_zero some_
  rw [all]
  unfold CacheFilter.cacheHitTries limitCheckAndUpdateApplication
  cases verdict : limitCheck time f.state.reqData.metrics.entries app {} with
  | trap => trivial
  | overflow => exact ⟨trivial, fun _ _ _ => ⟨rfl, fun failed => by cases failed⟩⟩
  | limited app' info =>
    refine ⟨trivial, fun _ refused known => ⟨trivial, fun _ refused' known' => ⟨rfl, fun _ => ?_⟩⟩⟩
    cases Option.some.inj known
    exact (Option.some.inj known').symm
  | pass app' info => exact absurd verdict (stop app' info)

theorem holding_cacheHit {f : CacheFilter} {app : Application} {cas : Nat} {now : Option Duration}
    (stopped : ∀ time, now = some time → ¬PassesLocally f app time) :
    Follows (holding now) (fun refused r => r.1.config = f.config ∧ (r.2 = .ok () → refused = true))
      (f.handleCacheHit app cas) false := by
  rw [handleCacheHit_eq]
  refine ⟨trivial, fun _ refused known => ⟨trivial, fun queue refused' known' => ?_⟩⟩
  cases Option.some.inj known
  cases Option.some.inj known'
  cases queue with
  | none => exact ⟨rfl, fun failed => by cases failed⟩
  | some queueId =>
    refine ⟨trivial, fun reading refused known => ?_⟩
    by_cases same : reading = now
    · cases (Option.some.inj ((if_pos same).symm.trans known))
      cases reading with
      | none => exact ⟨rfl, fun failed => by cases failed⟩
      | some time =>
        have stop := stopped time same.symm
        dsimp only
        cases added : addHierarchyToMetrics app.metricHierarchy f.state.reqData.metrics with
        | none => trivial
        | some metrics =>
          simp only [PassesLocally, added, Option.isSome_some, true_and, not_or, not_exists] at stop
          exact holding_cacheHitTries stop.1 stop.2
    · cases (if_neg same).symm.trans known

theorem holding_recordAppId {f : CacheFilter} {now : Option Duration} {appId : AppId} :
    Follows (holding now) (fun refused r => refused = false ∧ r.1.config = f.config ∧
      r.1.state.reqData.metrics = f.state.reqData.metrics) (f.recordAppId appId) false := by
  unfold CacheFilter.recordAppId
  split
  · refine ⟨trivial, fun reply refused known => ?_⟩
    cases Option.some.inj known
    cases reply with
    | ok => exact ⟨rfl, rfl, rfl⟩
    | error e => exact ⟨rfl, rfl, rfl⟩
  · exact ⟨rfl, rfl, rfl⟩

theorem holding_handleAuthResponse {f : CacheFilter} {response : AuthorizationStatus}
    {now : Option Duration}
    (stopped : ∀ app time, rebuilt response = some app → now = some time → ¬PassesLocally f app time) :
    Follows (holding now) (fun _ r => r.1.config = f.config) (f.handleAuthResponse response) false := by
  unfold CacheFilter.handleAuthResponse
  unfold rebuilt at stopped
  cases ids : CacheFilter.authResponseIds response with
  | error e => exact rfl
  | ok triple =>
    obtain ⟨appKeys, appId, serviceId⟩ := triple
    simp only [ids] at stopped
    refine follows_bind.mpr (holding_recordAppId.mono ?_)
    intro refused outcome fact
    obtain ⟨f₁, result⟩ := outcome
    obtain ⟨rfl, config, metrics⟩ := fact
    dsimp only at config metrics
    cases result with
    | error e => exact config
    | ok =>
      dsimp only
      cases formed : CacheFilter.authResponseApplication response appKeys appId serviceId with
      | none => exact config
      | some app =>
        have stop : ∀ time, now = some time → ¬PassesLocally
            { f₁ with state.cacheKey := ⟨serviceId, .appId appId none⟩ } app time := by
          intro time at_ passes
          refine stopped app time formed at_ ?_
          simpa only [PassesLocally, config, metrics] using passes
        refine follows_bind.mpr ((holding_cacheHit stop).mono ?_)
        intro refused outcome fact
        obtain ⟨f₂, result⟩ := outcome
        obtain ⟨same, _⟩ := fact
        cases result with
        | ok => exact same.trans config
        | error e => exact same.trans config

/-- The condition under which a refusal of the 3scale API is overruled. -/
def Overruled (f : CacheFilter) (status : Str) (response : AuthorizationStatus)
    (now : Option Duration) : Prop :=
  status ≠ timeoutStatus ∧ response.usageReports.isSome ∧
    ∃ app time, rebuilt response = some app ∧ now = some time ∧ PassesLocally f app time

theorem holding_onAuthorization {f : CacheFilter} {response : AuthorizationStatus}
    {now : Option Duration} (deny : f.config.failureModeDeny = true)
    (refusal : response.isAuthorized = false)
    (stopped : response.usageReports.isSome → ∀ app time, rebuilt response = some app →
      now = some time → ¬PassesLocally f app time) :
    Follows (holding now) (fun _ _ => True) (f.onAuthorization (.status response)) false := by
  unfold CacheFilter.onAuthorization
  dsimp only
  rw [refusal, Bool.false_or]
  by_cases reported : response.usageReports.isSome
  · rw [if_pos reported]
    refine follows_bind.mpr ((holding_handleAuthResponse (stopped reported)).mono ?_)
    intro refused outcome config
    obtain ⟨f₁, result⟩ := outcome
    cases result with
    | ok => trivial
    | error e =>
      refine follows_bind.mpr ((holding_requestProcessFailure ?_).mono fun _ _ _ => trivial)
      rw [show f₁.config = f.config from config, deny]
  · rw [if_neg reported]
    refine ⟨trivial, fun _ refused known => ?_⟩
    cases Option.some.inj known
    cases response.reason with
    | none => trivial
    | some reason => exact ⟨trivial, fun _ _ _ => trivial⟩

theorem holding_freeCalloutLock {now : Option Duration} {cacheKey : CacheKey} {action : WaiterAction}
    {refused : Bool} {f : CacheFilter} :
    Follows (holding now) (fun _ _ => True)
      (freeCalloutLockAndNotifyWaiters cacheKey action >>= fun _ => pure f) refused :=
  follows_bind.mpr ((holding_keeps_free.follows (only_freeCalloutLock cacheKey action) refused).mono
    fun _ _ _ => trivial)

theorem holding_onCallResult {f : CacheFilter} {status : Str} {response : AuthorizationStatus}
    {now : Option Duration} (deny : f.config.failureModeDeny = true)
    (refusal : response.isAuthorized = false) (stands : ¬Overruled f status response now) :
    Follows (holding now) (fun _ _ => True)
      (f.onCallResult status (some (.parsed (.status response)))) false := by
  unfold CacheFilter.onCallResult
  by_cases answered : status = timeoutStatus
  · rw [if_neg (not_not_intro answered)]
    refine ⟨trivial, fun _ refused known => ?_⟩
    show Follows (holding now) _
      (f.requestProcessFailure >>= fun f => pure (f, some (WaiterAction.handleFailure 0))) refused
    exact follows_bind.mpr ((holding_requestProcessFailure deny).mono fun _ _ _ => trivial)
  · rw [if_pos answered]
    refine holding_onAuthorization deny refusal fun reported app time formed at_ passes => ?_
    exact stands ⟨answered, reported, app, time, formed, at_, passes⟩

/-! The other direction: shared data that answer every call well let the
overruled request through. -/

theorem released_onAuthorizedTry {f : CacheFilter} {queueId cas : Nat} {time : Duration}
    {now : Option Duration} {info : RateLimitInfo}
    {Q : Bool → CacheFilter × Except CacheHitError Unit → Prop} :
    ¬Follows (holding now) Q (f.onAuthorizedTry queueId time cas info) false := by
  intro follows
  unfold CacheFilter.onAuthorizedTry onlyIf at follows
  have report : Follows (holding now) Q
      (do
        let _ ← (f.withRateLimitInfo info).reportToSingleton queueId time
        resumeHttpRequest
        pure (f.withRateLimitInfo info, .ok ())) false := by
    by_cases first : cas = 0
    · simp only [first, if_true] at follows
      exact follows.2 () false rfl
    · simp only [first, if_false] at follows
      exact follows
  have resumes := report.2 (.ok ()) false rfl
  exact Bool.false_ne_true resumes.1

/-- The counter of shared memory may fail; the write stands. -/
theorem written_of_follows {L : Type} {P : HostProtocol L} {Q : L → Except SetFailure Unit → Prop}
    {key : Str} {app : Application} {cas : Nat} {ℓ : L}
    (learns : ∀ c : HostCall, SideCall c ∨ c = .setSharedData key (some (.application app)) (some cas) →
      ∀ r, P.next ℓ c r = some ℓ)
    (follows : Follows P Q (setApplicationToCache key app cas) ℓ) : Q ℓ (.ok ()) := by
  have missed := follows.2 (.ok (none, none)) ℓ (learns _ (Or.inl (.read _)) _)
  have set := missed.2 (.ok ()) ℓ (learns _ (Or.inr rfl) _)
  have unread : P.next ℓ (.getSharedData sharedMemoryCounterKey) (.error .internalFailure) = some ℓ :=
    learns _ (Or.inl (.read _)) _
  have first := set.2 (.error .internalFailure) ℓ unread
  have second := first.2 (.error .internalFailure) ℓ unread
  exact second.2 (.error .internalFailure) ℓ unread

theorem released_cacheHit {f : CacheFilter} {app : Application} {cas : Nat} {time : Duration}
    {Q : Bool → CacheFilter × Except CacheHitError Unit → Prop} (passes : PassesLocally f app time) :
    ¬Follows (holding (some time)) Q (f.handleCacheHit app cas) false := by
  intro follows
  rw [handleCacheHit_eq] at follows
  have clock : (holding (some time)).next false .getCurrentTime (some time) = some false := if_pos rfl
  have timed := ((follows.2 () false rfl).2 (some 0) false rfl).2 (some time) false clock
  obtain ⟨metrics, added⟩ := Option.isSome_iff_exists.mp passes.1
  simp only [added] at timed
  have tries : Follows (holding (some time)) Q
      (CacheFilter.cacheHitTries 0 time f.config.maxTries f app cas) false := timed
  by_cases none_ : f.config.maxTries = 0
  · rw [none_] at tries
    exact Bool.false_ne_true tries.1
  · obtain ⟨rest, all⟩ := Nat.exists_eq_succ_of_ne_zero none_
    obtain ⟨app', info, verdict⟩ := passes.2.resolve_left none_
    rw [all] at tries
    unfold CacheFilter.cacheHitTries limitCheckAndUpdateApplication at tries
    rw [verdict] at tries
    have set := follows_bind.mp (follows_bind.mp tries)
    have noted := written_of_follows (fun c call r => by
      rcases call with side | rfl
      · cases side <;> rfl
      · rfl) set
    exact released_onAuthorizedTry (noted.2 () false rfl)

theorem recorded_of_follows {f : CacheFilter} {now : Option Duration} {appId : AppId}
    {Q : Bool → CacheFilter × Except CacheError Unit → Prop}
    (follows : Follows (holding now) Q (f.recordAppId appId) false) :
    ∃ f₁, f₁.config = f.config ∧ f₁.state.reqData.metrics = f.state.reqData.metrics ∧
      Q false (f₁, .ok ()) := by
  unfold CacheFilter.recordAppId at follows
  split at follows
  · exact ⟨{ f with state.reqData.appId := .appId appId none }, rfl, rfl, follows.2 (.ok ()) false rfl⟩
  · exact ⟨f, rfl, rfl, follows⟩

theorem released_handleAuthResponse {f : CacheFilter} {response : AuthorizationStatus}
    {app : Application} {time : Duration}
    {Q : Bool → CacheFilter × Except AuthResponseError Unit → Prop}
    (formed : rebuilt response = some app) (passes : PassesLocally f app time) :
    ¬Follows (holding (some time)) Q (f.handleAuthResponse response) false := by
  intro follows
  obtain ⟨appKeys, appId, serviceId, ids, formed⟩ := rebuilt_some formed
  unfold CacheFilter.handleAuthResponse at follows
  simp only [ids] at follows
  obtain ⟨f₁, config, metrics, later⟩ := recorded_of_follows (follows_bind.mp follows)
  simp only [formed] at later
  refine released_cacheHit ?_ (follows_bind.mp later)
  simpa only [PassesLocally, config, metrics] using passes

/-- A refused request is held back unless the local check overrules the
refusal. -/
theorem onHttpCallResponse_heldBack_iff {f : CacheFilter} {status : Str}
    {response : AuthorizationStatus} {now : Option Duration}
    (deny : f.config.failureModeDeny = true) (refusal : response.isAuthorized = false) :
    (∀ t q, Prog.Path (f.onHttpCallResponse ⟨some status, some (.parsed (.status response))⟩) t q →
      ClockAt now t → HeldBack t) ↔ ¬Overruled f status response now := by
  have paths := follows_holding_iff now (fun _ => False)
    (f.onHttpCallResponse ⟨some status, some (.parsed (.status response))⟩)
  simp only [false_imp_iff, implies_true, and_true] at paths
  rw [← paths]
  constructor
  · intro follows fact
    obtain ⟨answered, reported, app, time, formed, rfl, passes⟩ := fact
    have result := follows_bind.mp follows
    unfold CacheFilter.onCallResult CacheFilter.onAuthorization at result
    simp only [if_pos answered, refusal, reported, Bool.false_or, if_true] at result
    exact released_handleAuthResponse formed passes (follows_bind.mp result)
  · intro stands
    refine follows_bind.mpr ((holding_onCallResult deny refusal stands).mono ?_)
    intro refused outcome _
    obtain ⟨f', action⟩ := outcome
    cases action with
    | none => trivial
    | some action => exact holding_freeCalloutLock

def readsClock (now : Option Duration) : HostEvent → Bool
  | ⟨.getCurrentTime, reading⟩ => reading = now
  | _ => true

theorem clockAt_of_all {now : Option Duration} {t : List HostEvent}
    (all : ∀ e ∈ t, readsClock now e) : ClockAt now t :=
  fun reading member => by simpa [readsClock] using all ⟨.getCurrentTime, reading⟩ member

/-- A refusal that names usage reports, or none. -/
def refusalWith (reports : Option (List ResponseUsage)) : AuthorizationStatus where
  isAuthorized := false
  reason := some "application key is invalid".toList
  usageReports := reports
  hierarchy := none
  appKeys := some { serviceId := some ['s'], appId := some ['a'], keys := [] }

/-- The callback of a refusal for a bad key. -/
def refusalRun (reports : Option (List ResponseUsage)) :
    Prog.Ran HostCall HostCall.Reply Host CacheFilter :=
  ((hitContext 1).onHttpCallResponse
    ⟨some "409".toList, some (.parsed (.status (refusalWith reports)))⟩).run Host.exec quietHost

/-- Without reports the refusal stands. -/
theorem heldBack_of_no_reports : HeldBack (refusalRun none).trace := by
  have stands : ¬Overruled (hitContext 1) "409".toList (refusalWith none) (some (.fromSecs 1000000)) := by
    intro fact
    obtain ⟨_, reported, _⟩ := fact
    cases reported
  exact (onHttpCallResponse_heldBack_iff rfl rfl).mpr stands _ _ (Prog.run_path Host.exec _ quietHost)
    (clockAt_of_all (by decide))

/-- A refusal whose report leaves room for the request. -/
def overruledRun : Prog.Ran HostCall HostCall.Reply Host CacheFilter :=
  refusalRun (some
    [{ metric := "hits".toList, period := .day, periodStart := 950400, periodEnd := 1036800,
       maxValue := 100, currentValue := 10 }])

/-- The request passes the local check and goes on to the backend. -/
theorem not_heldBack_overruled : ∃ f status response now t q,
    CacheFilter.config f = { failureModeDeny := true, maxTries := 1 } ∧
    AuthorizationStatus.isAuthorized response = false ∧
    Prog.Path (f.onHttpCallResponse ⟨some status, some (.parsed (.status response))⟩) t q ∧
    ClockAt now t ∧ ¬HeldBack t := by
  refine ⟨hitContext 1, _, _, quietHost.clock, overruledRun.trace, overruledRun.rest, rfl, rfl,
    Prog.run_path Host.exec _ quietHost, clockAt_of_all (by decide), fun held => ?_⟩
  have resumed : overruledRun.trace[13]? = some ⟨.resumeHttpRequest, ()⟩ := rfl
  obtain ⟨before, after, split⟩ := List.append_of_mem (List.mem_of_getElem? resumed)
  obtain ⟨e, member, refused⟩ := held before after split
  have never : ∀ e ∈ overruledRun.trace, ¬refuses e := by decide
  exact never e (by rw [split]; exact List.mem_append_left _ member) refused

end ThreescaleCache
