import ThreescaleCache.RecordedDecisions

namespace ThreescaleCache
open Interaction

/-! The RateLimit headers of a response, against the decision about its request. -/

/-- The header of one field, if it is set. -/
def headerOf (name : String) (field : Option UInt64) : List (Str × Str) :=
  field.toList.map fun value => (name.toList, Nat.toDigits 10 value.toNat)

def rateLimitHeaders (info : RateLimitInfo) : List (Str × Str) :=
  headerOf "RateLimit-Limit" info.limit ++ headerOf "RateLimit-Remaining" info.remaining ++
    headerOf "RateLimit-Reset" info.reset

/-- The headers that these calls add. -/
def addedHeaders (t : List HostEvent) : List (Str × Str) :=
  t.filterMap fun e => match e with
    | ⟨.addHttpResponseHeader name value, _⟩ => some (name, value)
    | _ => none

/-- The callback of the response headers adds those of `info` and no other. -/
def AddsHeaders (f : CacheFilter) (info : RateLimitInfo) : Prop :=
  ∀ t action, Prog.Path f.onHttpResponseHeaders t (.done action) → addedHeaders t = rateLimitHeaders info

theorem addRateLimitHeader_adds {name : String} {field : Option UInt64} {t : List HostEvent}
    (path : Prog.Path (CacheFilter.addRateLimitHeader name field) t (.done ())) :
    addedHeaders t = headerOf name field := by
  cases field with
  | none =>
    cases path
    rfl
  | some value =>
    cases path with
    | next rest =>
      cases rest
      rfl

/-- The headers are those of the information that the context has recorded. -/
theorem addsHeaders_recorded (f : CacheFilter) : AddsHeaders f f.state.rateLimitInfo := by
  intro t action path
  obtain ⟨t₁, t', _, rfl, limit, path⟩ := Prog.path_bind_done path
  obtain ⟨t₂, t', _, rfl, remaining, path⟩ := Prog.path_bind_done path
  obtain ⟨t₃, t', _, rfl, reset, path⟩ := Prog.path_bind_done path
  cases path
  have added : ∀ u v, addedHeaders (u ++ v) = addedHeaders u ++ addedHeaders v :=
    fun u v => List.filterMap_append
  rw [List.append_nil, added, added, addRateLimitHeader_adds limit, addRateLimitHeader_adds remaining,
    addRateLimitHeader_adds reset, rateLimitHeaders, List.append_assoc]

/-- The callback returns. -/
theorem onHttpResponseHeaders_returns (f : CacheFilter) :
    ∃ t action, Prog.Path f.onHttpResponseHeaders t (.done action) := by
  have adds : ∀ name field, ∃ t, Prog.Path (CacheFilter.addRateLimitHeader name field) t (.done ()) := by
    intro name field
    cases field with
    | none => exact ⟨_, .start⟩
    | some value => exact ⟨_, .next .start⟩
  obtain ⟨t₁, limit⟩ := adds "RateLimit-Limit" f.state.rateLimitInfo.limit
  obtain ⟨t₂, remaining⟩ := adds "RateLimit-Remaining" f.state.rateLimitInfo.remaining
  obtain ⟨t₃, reset⟩ := adds "RateLimit-Reset" f.state.rateLimitInfo.reset
  exact ⟨_, _, (limit.bind _).append ((remaining.bind _).append ((reset.bind _).append .start))⟩

/-- A context that has recorded nothing adds no header. -/
theorem addsHeaders_iff_of_empty {f : CacheFilter} (empty : f.state.rateLimitInfo = {}) {info : RateLimitInfo} :
    AddsHeaders f info ↔ info = {} := by
  constructor
  · intro adds
    obtain ⟨t, action, path⟩ := onHttpResponseHeaders_returns f
    have none_ : rateLimitHeaders info = [] := by
      rw [← adds t action path, addsHeaders_recorded f t action path, empty]
      rfl
    obtain ⟨limit, remaining, reset⟩ := info
    simp only [rateLimitHeaders, headerOf, List.append_eq_nil_iff, List.map_eq_nil_iff,
      Option.toList_eq_nil_iff] at none_
    obtain ⟨⟨rfl, rfl⟩, rfl⟩ := none_
    rfl
  · rintro rfl
    rw [← empty]
    exact addsHeaders_recorded f

/-! The limit checks of a request -/

/-- Among these calls is a limit check of the request `data` on the application
`app` that returns `status`. -/
def Checked (data : ThreescaleData) (app : Application) (status : RateLimitStatus) (t : List HostEvent) : Prop :=
  ∃ before check after cas now, t = before ++ (check ++ after) ∧
    Prog.Path (limitCheckAndUpdateApplication data app cas now) check (.done (.ok status))

/-- No metric of the request is limited. -/
def Unlimited (data : ThreescaleData) (app : Application) : Prop :=
  ∀ metric ∈ data.metrics.entries.keys, app.localState.lookup metric = none

theorem Checked.append_left {data : ThreescaleData} {app : Application} {status : RateLimitStatus}
    {t : List HostEvent} (checked : Checked data app status t) (u : List HostEvent) :
    Checked data app status (u ++ t) := by
  obtain ⟨before, check, after, cas, now, rfl, path⟩ := checked
  exact ⟨u ++ before, check, after, cas, now, (List.append_assoc u before _).symm, path⟩

theorem Checked.append_right {data : ThreescaleData} {app : Application} {status : RateLimitStatus}
    {t : List HostEvent} (checked : Checked data app status t) (u : List HostEvent) :
    Checked data app status (t ++ u) := by
  obtain ⟨before, check, after, cas, now, rfl, path⟩ := checked
  exact ⟨before, check, after ++ u, cas, now, by simp only [List.append_assoc], path⟩

section
variable {now : Duration} {metrics : List (Sigma fun _ : Str => UInt64)} {app app' : Application}
  {info info' : RateLimitInfo}

/-- Without a limit the loop leaves everything as it is. -/
theorem limitCheck_unlimited (free : ∀ metric ∈ metrics.keys, app.localState.lookup metric = none) :
    limitCheck now metrics app info = .pass app info := by
  induction metrics with
  | nil => rfl
  | cons entry rest ih =>
    obtain ⟨metric, hits⟩ := entry
    have absent := free metric List.mem_cons_self
    unfold limitCheck
    rw [absent]
    exact ih fun other member => free other (List.mem_cons_of_mem _ member)

/-- From the first limited metric on there is a limit in the information. -/
theorem limitCheck_pass_limit (pass : limitCheck now metrics app info = .pass app' info')
    (limited : info.limit ≠ none ∨ ∃ metric ∈ metrics.keys, app.localState.lookup metric ≠ none) :
    info'.limit ≠ none := by
  induction metrics generalizing app info with
  | nil =>
    cases pass
    rcases limited with noted | ⟨metric, member, _⟩
    · exact noted
    · cases member
  | cons entry rest ih =>
    obtain ⟨metric, hits⟩ := entry
    unfold limitCheck at pass
    cases here : app.localState.lookup metric with
    | none =>
      rw [here] at pass
      refine ih pass (limited.imp_right fun fact => ?_)
      obtain ⟨other, member, limit⟩ := fact
      rcases List.mem_cons.mp member with rfl | later
      · exact absurd here limit
      · exact ⟨other, later, limit⟩
    | some found =>
      simp only [here] at pass
      cases renewed : found.renew now with
      | none =>
        simp only [renewed, reduceCtorEq] at pass
      | some report =>
        simp only [renewed] at pass
        split at pass
        · split at pass <;> cases pass
        · split at pass
          · split at pass
            · cases pass
            · exact ih pass (Or.inl (Option.some_ne_none _))
          · rename_i greater
            -- a report that is not noted has met a limit that was
            have noted : info.limit ≠ none := by
              intro none_
              rw [none_] at greater
              exact greater rfl
            exact ih pass (Or.inl noted)

theorem limitCheck_limited_limit (limited : limitCheck now metrics app info = .limited app' info') :
    info'.limit ≠ none := by
  induction metrics generalizing app info with
  | nil => cases limited
  | cons entry rest ih =>
    obtain ⟨metric, hits⟩ := entry
    unfold limitCheck at limited
    split at limited
    · exact ih limited
    · split at limited
      · cases limited
      · split at limited
        · split at limited
          · cases limited
          · cases limited
            exact Option.some_ne_none _
        · dsimp only at limited
          split at limited
          · split at limited
            · cases limited
            · exact ih limited
          · exact ih limited

end

section
variable {data : ThreescaleData} {app : Application} {cas : Nat} {now : Duration} {status : RateLimitStatus}
  {t : List HostEvent}

theorem noteLimitCheck_mem {result result' : Except UpdateMetricsError RateLimitStatus}
    {q : HostProg (Except UpdateMetricsError RateLimitStatus)} (path : Prog.Path (noteLimitCheck result) t q)
    (member : ⟨.limitChecked result', ()⟩ ∈ t) : result' = result ∧ q = .done result := by
  cases path with
  | start => cases member
  | next rest =>
    cases rest
    cases List.mem_singleton.mp member
    exact ⟨rfl, rfl⟩

theorem not_filing_limitChecked (result : Except UpdateMetricsError RateLimitStatus) :
    ¬FilingCall (.limitChecked result) := by
  intro filing
  cases filing with
  | side side => cases side

/-- A limit check that decides is at its end. -/
theorem limitCheckAndUpdate_mem {q : HostProg (Except UpdateMetricsError RateLimitStatus)}
    {result : Except UpdateMetricsError RateLimitStatus}
    (path : Prog.Path (limitCheckAndUpdateApplication data app cas now) t q)
    (member : ⟨.limitChecked result, ()⟩ ∈ t) : q = .done result := by
  have noted : ∀ {u r}, Prog.Path (noteLimitCheck r) u q → ⟨.limitChecked result, ()⟩ ∈ u → q = .done result := by
    intro u r path member
    obtain ⟨rfl, ended⟩ := noteLimitCheck_mem path member
    exact ended
  unfold limitCheckAndUpdateApplication at path
  cases verdict : limitCheck now data.metrics.entries app {} with
  | trap =>
    rw [verdict] at path
    cases path
    cases member
  | overflow | limited =>
    rw [verdict] at path
    exact noted path member
  | pass app' info =>
    simp only [verdict] at path
    have filing := only_setApplicationToCache app' cas
    rcases Prog.path_bind path with ⟨p, inside, _⟩ | ⟨t₁, t₂, set, rfl, first, rest⟩
    · exact absurd (filing.path inside _ member) (not_filing_limitChecked result)
    · rcases List.mem_append.mp member with early | late
      · exact absurd (filing.path first _ early) (not_filing_limitChecked result)
      · cases set with
        | ok => exact noted rest late
        | error e => exact noted rest late

/-- The information of a check that decides is empty exactly if nothing is limited. -/
theorem Checked.info_empty_iff (checked : Checked data app status t) :
    ⟨.limitChecked (.ok status), ()⟩ ∈ t ∧ (status.info = {} ↔ Unlimited data app) := by
  obtain ⟨before, check, after, cas, now, rfl, path⟩ := checked
  have decided : ⟨.limitChecked (.ok status), ()⟩ ∈ check ∧ ∃ app',
      limitCheck now data.metrics.entries app {} = .pass app' status.info ∨
        limitCheck now data.metrics.entries app {} = .limited app' status.info := by
    unfold limitCheckAndUpdateApplication at path
    cases verdict : limitCheck now data.metrics.entries app {} with
    | trap =>
      rw [verdict] at path
      cases path
    | overflow =>
      rw [verdict] at path
      cases (noteLimitCheck_done path).1
    | limited app' info =>
      rw [verdict] at path
      obtain ⟨same, rfl⟩ := noteLimitCheck_done path
      cases same
      exact ⟨List.mem_cons_self, app', Or.inr rfl⟩
    | pass app' info =>
      simp only [verdict] at path
      obtain ⟨t₁, t₂, set, rfl, _, rest⟩ := Prog.path_bind_done path
      cases set with
      | error e => cases (noteLimitCheck_done rest).1
      | ok =>
        obtain ⟨same, rfl⟩ := noteLimitCheck_done rest
        cases same
        exact ⟨List.mem_append_right _ List.mem_cons_self, app', Or.inl rfl⟩
  obtain ⟨member, app', verdict⟩ := decided
  refine ⟨List.mem_append_right _ (List.mem_append_left _ member), ?_⟩
  constructor
  · intro empty
    by_contra limited
    simp only [Unlimited, not_forall, exists_prop] at limited
    rcases verdict with pass | refused
    · have noted := limitCheck_pass_limit pass (Or.inr limited)
      rw [empty] at noted
      exact noted rfl
    · have noted := limitCheck_limited_limit refused
      rw [empty] at noted
      exact noted rfl
  · intro free
    have passes : limitCheck now data.metrics.entries app {} = .pass app {} := limitCheck_unlimited free
    rcases verdict with pass | refused
    · obtain ⟨_, same⟩ := Verdict.pass.inj (passes.symm.trans pass)
      exact same.symm
    · cases passes.symm.trans refused

end

/-- Every decision among the calls of `p` is that of a limit check of `data`. -/
def DecidesOn {α : Type} (data : ThreescaleData) (p : HostProg α) : Prop :=
  ∀ t q status, Prog.Path p t q → ⟨.limitChecked (.ok status), ()⟩ ∈ t → ∃ app, Checked data app status t

section
variable {α β : Type} {data : ThreescaleData}

theorem decidesOn_bind {p : HostProg α} {next : α → HostProg β} (first : DecidesOn data p)
    (rest : ∀ a, DecidesOn data (next a)) : DecidesOn data (p >>= next) := by
  intro t q status path member
  rcases Prog.path_bind path with ⟨p', inside, _⟩ | ⟨t₁, t₂, a, rfl, past, later⟩
  · exact first t p' status inside member
  · rcases List.mem_append.mp member with early | late
    · obtain ⟨app, checked⟩ := first t₁ _ status past early
      exact ⟨app, checked.append_right t₂⟩
    · obtain ⟨app, checked⟩ := rest a t₂ q status later late
      exact ⟨app, checked.append_left t₁⟩

theorem decidesOn_only {p : HostProg α} (only : p.Only Unremarkable) : DecidesOn data p :=
  fun _ _ _ path member => (only.path path _ member).elim

theorem decidesOn_call {c : HostCall} {k : c.Reply → HostProg α} (unremarkable : Unremarkable c)
    (rest : ∀ r, DecidesOn data (k r)) : DecidesOn data (.call c k) := by
  have only : (ask c).Only Unremarkable := ⟨unremarkable, fun _ => trivial⟩
  exact decidesOn_bind (decidesOn_only only) rest

theorem decidesOn_limitCheck (data : ThreescaleData) (app : Application) (cas : Nat) (now : Duration) :
    DecidesOn data (limitCheckAndUpdateApplication data app cas now) := by
  intro t q status path member
  cases limitCheckAndUpdate_mem path member
  exact ⟨app, [], t, [], cas, now, (List.append_nil t).symm, path⟩

theorem decidesOn_getApplicationFromCache (key : CacheKey) : DecidesOn data (getApplicationFromCache key) :=
  decidesOn_only ((only_getApplicationFromCache key).mono fun _ => unremarkable_sideCall)

theorem decidesOn_requestProcessFailure (f : CacheFilter) : DecidesOn data f.requestProcessFailure :=
  decidesOn_only ((only_requestProcessFailure f).mono fun _ => unremarkable_failureCall)

theorem decidesOn_cacheHitTries (f : CacheFilter) (queueId tries cas : Nat) (now : Duration) (app : Application) :
    DecidesOn f.state.reqData (CacheFilter.cacheHitTries queueId now tries f app cas) := by
  have released : ∀ {γ : Type} (a : γ), DecidesOn f.state.reqData (resumeHttpRequest >>= fun _ => pure a) :=
    fun a => decidesOn_only ⟨trivial, fun _ => trivial⟩
  induction tries generalizing app cas with
  | zero => exact released _
  | succ tries ih =>
    refine decidesOn_bind (decidesOn_limitCheck _ app cas now) fun result => ?_
    match result with
    | .ok (.authorized info) =>
      have stat : (onlyIf (cas = 0) (incrementStat .cachedApps)).Only Unremarkable :=
        only_onlyIf ⟨trivial, fun _ => trivial⟩
      have report : ((f.withRateLimitInfo info).reportToSingleton queueId now).Only Unremarkable :=
        only_reportToSingleton (fun _ _ => trivial) _ queueId now
      exact decidesOn_bind (decidesOn_only stat) fun _ => decidesOn_bind (decidesOn_only report) fun _ => released _
    | .ok (.rateLimited info) => exact decidesOn_only ⟨trivial, fun _ => trivial⟩
    | .error .durationOverflow => exact decidesOn_only trivial
    | .error (.cacheUpdateFail _) =>
      refine decidesOn_bind (decidesOn_getApplicationFromCache _) fun fetched => ?_
      match fetched with
      | .ok (app, cas) => exact ih cas app
      | .error e => exact decidesOn_only trivial

theorem decidesOn_handleCacheHit (f : CacheFilter) (app : Application) (cas : Nat) :
    DecidesOn f.state.reqData (f.handleCacheHit app cas) := by
  rw [handleCacheHit_eq]
  refine decidesOn_call trivial fun _ => decidesOn_call trivial fun queue => ?_
  cases queue with
  | none => exact decidesOn_only trivial
  | some queueId =>
    refine decidesOn_call trivial fun reading => ?_
    cases reading with
    | none => exact decidesOn_only trivial
    | some now =>
      cases addHierarchyToMetrics app.metricHierarchy f.state.reqData.metrics with
      | none => exact decidesOn_only trivial
      | some metrics => exact decidesOn_cacheHitTries f queueId f.config.maxTries cas now app

theorem decidesOn_lookupForWaiter (w : CacheFilter) :
    DecidesOn w.state.reqData (CacheFilterRoot.lookupForWaiter w) := by
  refine decidesOn_bind (decidesOn_getApplicationFromCache _) fun found => ?_
  match found with
  | .error e => exact decidesOn_only trivial
  | .ok (app, cas) =>
    refine decidesOn_bind (decidesOn_handleCacheHit w app cas) fun outcome => ?_
    match outcome with
    | (_, .ok ()) => exact decidesOn_only ⟨trivial, fun _ => trivial⟩
    | (w', .error e) => exact decidesOn_bind (decidesOn_requestProcessFailure w') fun _ => decidesOn_only trivial

/-- A waiter is decided about by limit checks of its own request. -/
theorem decidesOn_wakeWaiter (w : CacheFilter) (action : WaiterAction) :
    DecidesOn w.state.reqData (CacheFilterRoot.wakeWaiter w action) := by
  cases action with
  | handleFailure id => exact decidesOn_bind (decidesOn_requestProcessFailure w) fun _ => decidesOn_only trivial
  | handleCacheHit id =>
    show DecidesOn _ (CacheFilterRoot.resumeCacheHit w)
    unfold CacheFilterRoot.resumeCacheHit
    split
    · refine decidesOn_bind (decidesOn_only ((only_getAppIdFromCache _).mono fun _ => unremarkable_sideCall)) ?_
      intro found
      cases found with
      | ok appId => exact decidesOn_lookupForWaiter _
      | error e => exact decidesOn_only trivial
    · exact decidesOn_lookupForWaiter w

end

/-! The course of a request -/

/-- All that has been done for a request: the calls of its callbacks, the context
that the host keeps for it, and the one that a root has woken in its place. -/
structure Course where
  trace : List HostEvent
  own : CacheFilter
  woken : Option CacheFilter

/-- The callbacks of a request, each run to its end: that of its headers, and then
that of a response if a call is out, or that of a queue if it waits. The root
fetches what was put into the map of the waiting contexts. -/
inductive Runs (lib : ThirdParty) (rounds : Nat) (root : CacheFilterRoot) (contextId : Nat)
    (headers : Str → Option Str) : Course → Prop
  | asked {t g action}
      (first : Prog.Path ((root.createHttpContext contextId).onHttpRequestHeaders lib rounds headers) t
        (.done (g, action))) : Runs lib rounds root contextId headers ⟨t, g, none⟩
  | responded {t f action response t' g}
      (first : Prog.Path ((root.createHttpContext contextId).onHttpRequestHeaders lib rounds headers) t
        (.done (f, action)))
      (out : ∃ call id, (⟨.dispatchHttpCall call, .ok id⟩ : HostEvent) ∈ t)
      (then_ : Prog.Path (f.onHttpCallResponse response) t' (.done g)) :
      Runs lib rounds root contextId headers ⟨t ++ t', g, none⟩
  | woken {t g action w waker queueId message t'}
      (first : Prog.Path ((root.createHttpContext contextId).onHttpRequestHeaders lib rounds headers) t
        (.done (g, action)))
      (waits : (⟨.insertWaitingContext w, ()⟩ : HostEvent) ∈ t)
      (then_ : Prog.Path (CacheFilterRoot.onQueueReady waker queueId)
        (⟨.dequeueSharedQueue queueId, .ok (some (.waiterAction message))⟩ ::
          ⟨.getWaitingContext waker.id message.contextId, some w⟩ :: t') (.done ())) :
      Runs lib rounds root contextId headers
        ⟨t ++ ⟨.dequeueSharedQueue queueId, .ok (some (.waiterAction message))⟩ ::
          ⟨.getWaitingContext waker.id message.contextId, some w⟩ :: t', g, some w⟩

/-- The headers of the response match the decision: those of its information if
the request was decided about, and none if it was not. -/
structure HeadersMatch (course : Course) : Prop where
  decided : ∀ status, ⟨.limitChecked (.ok status), ()⟩ ∈ course.trace → AddsHeaders course.own status.info
  undecided : (∀ status, ⟨.limitChecked (.ok status), ()⟩ ∉ course.trace) → AddsHeaders course.own {}

/-- Whatever application a woken context was checked against, it limits none of
the metrics of the request. -/
def WokenUnlimited (course : Course) : Prop :=
  ∀ w ∈ course.woken, ∀ app status, Checked w.state.reqData app status course.trace →
    Unlimited w.state.reqData app

theorem wokenUnlimited_none (t : List HostEvent) (g : CacheFilter) : WokenUnlimited ⟨t, g, none⟩ :=
  fun _ never => absurd never (Option.not_mem_none _)

section
variable {t t' : List HostEvent} {g : CacheFilter} {woken : Option CacheFilter}

theorem deciding_path {α : Type} {p : HostProg α} {Q : Decisions → α → Prop} {a : α}
    (follows : Follows deciding Q p {}) (path : Prog.Path p t (.done a)) : Q (.ofTrace t) a :=
  (follows_folding_iff.mp follows t _ path).2 a rfl fun _ _ => trivial

/-- The later calls are those that decide, and the context has recorded what they did. -/
theorem headersMatch_of_recorded (before : (Decisions.ofTrace t).infos = [])
    (recorded : Decisions.Recorded (Decisions.ofTrace t').infos g.state.rateLimitInfo) :
    HeadersMatch ⟨t ++ t', g, woken⟩ := by
  have early : ∀ status, ⟨.limitChecked (.ok status), ()⟩ ∉ t := by
    intro status member
    have noted := Decisions.mem_infos.mpr ⟨status, member, rfl⟩
    rw [before] at noted
    cases noted
  have adds : ∀ info, g.state.rateLimitInfo = info → AddsHeaders g info := by
    rintro _ rfl
    exact addsHeaders_recorded g
  constructor
  · intro status member
    have later := (List.mem_append.mp member).resolve_left (early status)
    have noted := Decisions.mem_infos.mpr ⟨status, later, rfl⟩
    exact adds _ (recorded.eq_of_mem noted)
  · intro undecided
    refine adds _ (recorded.empty fun info noted => ?_)
    obtain ⟨status, member, _⟩ := Decisions.mem_infos.mp noted
    exact undecided status (List.mem_append_right _ member)

theorem createHttpContext_empty (root : CacheFilterRoot) (contextId : Nat) :
    (root.createHttpContext contextId).state.rateLimitInfo = {} := rfl

variable {lib : ThirdParty} {rounds : Nat} {root : CacheFilterRoot} {contextId : Nat} {headers : Str → Option Str}

/-- A request that is handed on has not been decided about, and its context has
recorded nothing. -/
theorem handedOn_undecided {action : Action} {e : HostEvent}
    (first : Prog.Path ((root.createHttpContext contextId).onHttpRequestHeaders lib rounds headers) t
      (.done (g, action))) (member : e ∈ t) (handsOn : Disposal.HandsOn e) :
    (Decisions.ofTrace t).infos = [] ∧ g.state.rateLimitInfo = {} := by
  have record := deciding_path (deciding_onHttpRequestHeaders (createHttpContext_empty root contextId)) first
  have none_ := record.handedOn (Decisions.handedOn_ofTrace member handsOn)
  refine ⟨none_, record.recorded.empty fun info noted => ?_⟩
  rw [none_] at noted
  cases noted

/-- What a root does with a waiting context that it has fetched. -/
theorem woken_decidesOn {waker : CacheFilterRoot} {queueId : Nat} {message : WaiterAction} {w : CacheFilter}
    {q : HostProg Unit}
    (path : Prog.Path (waker.onQueueReady queueId)
      (⟨.dequeueSharedQueue queueId, .ok (some (.waiterAction message))⟩ ::
        ⟨.getWaitingContext waker.id message.contextId, some w⟩ :: t) q)
    {status : RateLimitStatus} (member : ⟨.limitChecked (.ok status), ()⟩ ∈ t) :
    ∃ app, Checked w.state.reqData app status t := by
  cases path with
  | next path =>
    cases path with
    | next path =>
      have removed : (ask (.removeWaitingContext waker.id message.contextId)).Only Unremarkable :=
        ⟨trivial, fun _ => trivial⟩
      have setting : Prog.Path (ask (.setEffectiveContext message.contextId) >>= _) t q := path
      refine decidesOn_bind ?_ ?_ t q status setting member
      · exact decidesOn_only ⟨trivial, fun _ => trivial⟩
      · intro set
        cases set with
        | error e => exact decidesOn_only removed
        | ok => exact decidesOn_bind (decidesOn_wakeWaiter w message) fun _ => decidesOn_only removed

/-- The headers match the decision unless it is made for a woken context: the
host asks the context that has parked this one, and it has recorded nothing. -/
theorem headersMatch_iff {course : Course} (runs : Runs lib rounds root contextId headers course) :
    HeadersMatch course ↔ WokenUnlimited course := by
  cases runs with
  | @asked t g action first =>
    have record := deciding_path (deciding_onHttpRequestHeaders (createHttpContext_empty root contextId)) first
    have matches_ : HeadersMatch ⟨[] ++ t, g, none⟩ := headersMatch_of_recorded rfl record.recorded
    exact iff_of_true matches_ (wokenUnlimited_none _ g)
  | @responded t f action response t' g first out then_ =>
    obtain ⟨call, id, member⟩ := out
    obtain ⟨before, empty⟩ := handedOn_undecided first member (Or.inl ⟨call, id, rfl⟩)
    have recorded := deciding_path (deciding_onHttpCallResponse empty) then_
    exact iff_of_true (headersMatch_of_recorded before recorded) (wokenUnlimited_none _ g)
  | @woken t g action w waker queueId message t' first waits then_ =>
    obtain ⟨before, empty⟩ := handedOn_undecided first waits (Or.inr ⟨w, rfl⟩)
    constructor
    · intro match_ w' same app status checked
      cases Option.mem_some.mp same
      obtain ⟨member, free⟩ := checked.info_empty_iff
      exact free.mp ((addsHeaders_iff_of_empty empty).mp (match_.decided status member))
    · intro unlimited
      refine ⟨fun status member => ?_, fun _ => (addsHeaders_iff_of_empty empty).mpr rfl⟩
      have later : ⟨.limitChecked (.ok status), ()⟩ ∈ t' := by
        rcases List.mem_append.mp member with early | late
        · have noted := Decisions.mem_infos.mpr ⟨status, early, rfl⟩
          rw [before] at noted
          cases noted
        · simpa using late
      obtain ⟨app, checked⟩ := woken_decidesOn then_ later
      have whole := checked.append_left [⟨.dequeueSharedQueue queueId, .ok (some (.waiterAction message))⟩,
        ⟨.getWaitingContext waker.id message.contextId, some w⟩]
      have free := unlimited w rfl app status (whole.append_left t)
      exact (addsHeaders_iff_of_empty empty).mpr (checked.info_empty_iff.2.mpr free)

end

/-- A request that is rate-limited at once. -/
theorem headersMatch_limited : ∃ g, Runs hitLib 3 ⟨1, {}⟩ 1 hitHeaders ⟨(hitRequest exhausted).trace, g, none⟩ ∧
    HeadersMatch ⟨(hitRequest exhausted).trace, g, none⟩ := by
  obtain ⟨g, action, ended⟩ : ∃ g action, (hitRequest exhausted).rest = .done (g, action) := ⟨_, _, rfl⟩
  have path := Prog.run_path Host.exec ((hitFilter 1).onHttpRequestHeaders hitLib 3 hitHeaders) (cachedHost exhausted)
  have first : Prog.Path ((hitFilter 1).onHttpRequestHeaders hitLib 3 hitHeaders) (hitRequest exhausted).trace
    (.done (g, action)) := ended ▸ path
  have runs : Runs hitLib 3 ⟨1, {}⟩ 1 hitHeaders ⟨(hitRequest exhausted).trace, g, none⟩ := .asked first
  exact ⟨g, runs, (headersMatch_iff runs).mpr (wokenUnlimited_none _ g)⟩

/-! A request that waits while its callout-lock is held, and is woken when five
of ten hits are left. -/

def fiveLeft : Application :=
  cachedWith ((∅ : HashMap UsageReport).insert "hits".toList
    { periodWindow := ⟨.fromSecs 950400, .fromSecs 1036800, .day⟩, leftHits := 5, maxValue := 10 })

def heldLock : Host :=
  { quietHost with
    shared := SharedData.empty.put (calloutLockKey ⟨['s'], .appId ['a'] none⟩) (some (.calloutLock ⟨2, []⟩)) }

def parking : Prog.Ran HostCall HostCall.Reply Host (CacheFilter × Action) :=
  ((hitFilter 1).onHttpRequestHeaders hitLib 3 hitHeaders).run Host.exec heldLock

def parked : CacheFilter :=
  { hitFilter 1 with
    state :=
      { updateCacheFromSingleton := false
        cacheKey := ⟨['s'], .appId ['a'] none⟩
        reqData := oneHit
        rateLimitInfo := {} } }

def notifiedHost : Host :=
  { cachedHost fiveLeft with
    queues := fun _ => [.waiterAction (.handleCacheHit 1)]
    waiting := fun _ _ => some parked }

def waking : Prog.Ran HostCall HostCall.Reply Host Unit :=
  ((⟨1, {}⟩ : CacheFilterRoot).onQueueReady 7).run Host.exec notifiedHost

def parkedCourse : Course := ⟨parking.trace ++ waking.trace, parked, some parked⟩

theorem parkedCourse_runs : Runs hitLib 3 ⟨1, {}⟩ 1 hitHeaders parkedCourse := by
  have first : Prog.Path ((hitFilter 1).onHttpRequestHeaders hitLib 3 hitHeaders) parking.trace
    (.done (parked, .pause)) := Prog.run_path Host.exec _ heldLock
  have waits : parking.trace[5]? = some ⟨.insertWaitingContext parked, ()⟩ := rfl
  have then_ : Prog.Path ((⟨1, {}⟩ : CacheFilterRoot).onQueueReady 7)
      (⟨.dequeueSharedQueue 7, .ok (some (.waiterAction (.handleCacheHit 1)))⟩ ::
        ⟨.getWaitingContext 1 1, some parked⟩ :: waking.trace.drop 2) (.done ()) :=
    Prog.run_path Host.exec ((⟨1, {}⟩ : CacheFilterRoot).onQueueReady 7) notifiedHost
  exact .woken first (List.mem_of_getElem? waits) then_

/-- It is let through with four hits remaining, and its response has no header
that says so. -/
theorem not_headersMatch_parked :
    Runs hitLib 3 ⟨1, {}⟩ 1 hitHeaders parkedCourse ∧ ¬HeadersMatch parkedCourse := by
  refine ⟨parkedCourse_runs, fun match_ => ?_⟩
  have decided : waking.trace[14]? = some ⟨.limitChecked (.ok (.authorized ⟨some 10, some 4, some 36800⟩)), ()⟩ := rfl
  have member := List.mem_append_right parking.trace (List.mem_of_getElem? decided)
  have adds := match_.decided _ member
  have empty : parkedCourse.own.state.rateLimitInfo = {} := rfl
  cases (addsHeaders_iff_of_empty empty).mp adds

end ThreescaleCache
