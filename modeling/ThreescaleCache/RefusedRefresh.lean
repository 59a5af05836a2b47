import ThreescaleCache.LoneRuns
import ThreescaleCache.SingletonRoot
import ThreescaleCache.UsageLimits

namespace ThreescaleCache
open Interaction

/-! The singleton's refresh of an application that 3scale refuses, and the
cache hits after it. -/

/-- Whatever is replied to it, the check can come to authorize the request. -/
def Authorizes (data : ThreescaleData) (app : Application) (now : Duration) : Prop :=
  ∃ cas t info, Prog.Path (limitCheckAndUpdateApplication data app cas now) t (.done (.ok (.authorized info)))

/-- At least one hit on each limited metric. -/
def HitsAll (metrics : Metrics) (app : Application) : Prop :=
  ∀ metric report, app.localState.lookup metric = some report →
    ∃ hits, metrics.lookup metric = some hits ∧ 1 ≤ hits

/-- A time inside the windows of all usage reports of an application. -/
def InsideWindows (app : Application) (now : Duration) : Prop :=
  ∀ metric report, app.localState.lookup metric = some report →
    report.periodWindow.start ≤ now ∧ now ≤ report.periodWindow.end

/-- What requests until `now` make of a cached application: those that pass
the check debit it. -/
inductive Until (now : Duration) : Application → Application → Prop
  | refl (app : Application) : Until now app app
  | pass {app app₁ app₂ : Application} {metrics : Metrics} {time : Duration} {info : RateLimitInfo}
      (earlier : time ≤ now) (pass : limitCheck time metrics.entries app {} = .pass app₁ info)
      (later : Until now app₁ app₂) : Until now app app₂

/-- The application that is found is gone, or no request with a hit on each of
its limited metrics is authorized inside its windows, whatever requests come
before it. -/
def TakesEffect (found : Option Application) : Prop :=
  ∀ app, found = some app → ∀ now, InsideWindows app now → ∀ app', Until now app app' →
    ∀ data : ThreescaleData, HitsAll data.metrics app' → ¬Authorizes data app' now

/-- An application with a counter that is used up, or with windows that have no
time in common. -/
def UsedUp (app : Application) : Prop :=
  (∃ metric report, app.localState.lookup metric = some report ∧ report.leftHits = 0) ∨
    ¬∃ now, InsideWindows app now

/-! What the check makes of a request inside the windows -/

/-- Only a request that passes the check is authorized, and it can be. -/
theorem authorizes_iff {data : ThreescaleData} {app : Application} {now : Duration} :
    Authorizes data app now ↔ ∃ app' info, limitCheck now data.metrics.entries app {} = .pass app' info := by
  constructor
  · rintro ⟨cas, t, info, path⟩
    unfold limitCheckAndUpdateApplication at path
    cases verdict : limitCheck now data.metrics.entries app {} with
    | pass app' info => exact ⟨app', info, rfl⟩
    | trap =>
      rw [verdict] at path
      cases path
    | overflow =>
      rw [verdict] at path
      cases path with | next rest => cases rest
    | limited app' info =>
      rw [verdict] at path
      cases path with | next rest => cases rest
  · rintro ⟨app', info, pass⟩
    obtain ⟨t, path⟩ := limitCheckAndUpdate_authorizes pass 0
    exact ⟨0, t, info, path⟩

/-- A counter that is used up in a window that is open until `now`. -/
def Spent (now : Duration) (metric : Str) (app : Application) : Prop :=
  ∃ report, app.localState.lookup metric = some report ∧ report.leftHits = 0 ∧ now ≤ report.periodWindow.end

theorem Spent.debits {now time : Duration} {metric : Str} {metrics : List (Sigma fun _ : Str => UInt64)}
    {app app' : Application} (spent : Spent now metric app) (earlier : time ≤ now)
    (debits : Debits time metrics app app') : Spent now metric app' := by
  obtain ⟨report, here, none_, open_⟩ := spent
  by_cases requested : metric ∈ metrics.keys
  · obtain ⟨hits, member⟩ := List.exists_of_mem_keys requested
    obtain ⟨renewed, renews, enough, charged⟩ := debits.charged metric hits report member here
    have still : report.renew time = some report := UsageReport.renew_of_le (Nat.le_trans earlier open_)
    cases Option.some.inj (still.symm.trans renews)
    refine ⟨_, charged, ?_, open_⟩
    rw [none_] at enough
    simp only [UsageReport.charge, none_, UInt64.le_zero_iff.mp enough]
    rfl
  · exact ⟨report, (debits.untouched metric (Or.inl requested)).trans here, none_, open_⟩

/-- It stays used up until then. -/
theorem Spent.until {now : Duration} {metric : Str} {app app' : Application} (spent : Spent now metric app)
    (later : Until now app app') : Spent now metric app' := by
  induction later with
  | refl => exact spent
  | pass earlier pass _ ih => exact ih (spent.debits earlier (limitCheck_pass_debits (AList.nodupKeys _) pass))

theorem Spent.not_authorizes {now : Duration} {metric : Str} {app : Application} {data : ThreescaleData}
    (spent : Spent now metric app) (hits : HitsAll data.metrics app) : ¬Authorizes data app now := by
  obtain ⟨report, here, none_, open_⟩ := spent
  intro authorizes
  obtain ⟨app', info, pass⟩ := authorizes_iff.mp authorizes
  obtain ⟨count, requested, positive⟩ := hits metric report here
  have debits := limitCheck_pass_debits data.metrics.nodupKeys pass
  obtain ⟨renewed, renews, enough, _⟩ :=
    debits.charged metric count report (AList.mem_lookup_iff.mp requested) here
  cases Option.some.inj ((UsageReport.renew_of_le open_).symm.trans renews)
  rw [none_] at enough
  have zero := UInt64.le_zero_iff.mp enough
  rw [zero] at positive
  exact absurd positive (by decide)

/-- Inside the windows a request passes that has enough hits left everywhere. -/
theorem limitCheck_passes {now : Duration} {metrics : List (Sigma fun _ : Str => UInt64)} {app : Application}
    {info : RateLimitInfo} (nodup : metrics.NodupKeys)
    (enough : ∀ metric hits report, ⟨metric, hits⟩ ∈ metrics → app.localState.lookup metric = some report →
      now ≤ report.periodWindow.end ∧ hits ≤ report.leftHits) :
    ∃ app' info', limitCheck now metrics app info = .pass app' info' := by
  induction metrics generalizing app info with
  | nil => exact ⟨app, info, rfl⟩
  | cons entry rest ih =>
    obtain ⟨metric, hits⟩ := entry
    obtain ⟨fresh, nodupRest⟩ := List.nodupKeys_cons.mp nodup
    unfold limitCheck
    cases here : app.localState.lookup metric with
    | none => exact ih nodupRest fun m h r member => enough m h r (List.mem_cons_of_mem _ member)
    | some report =>
      obtain ⟨open_, left⟩ := enough metric hits report List.mem_cons_self here
      obtain ⟨reset, subtracted, _⟩ := Duration.checkedSub_of_le open_
      have later : ∀ report' info', ∃ app' info'',
          limitCheck now rest (app.setReport metric report') info' = .pass app' info'' := by
        intro report' info'
        refine ih nodupRest fun m h r member at_ => ?_
        have different : m ≠ metric := by
          rintro rfl
          have known := List.mem_keys_of_mem member
          exact fresh known
        rw [Application.setReport_lookup_ne _ _ different] at at_
        exact enough m h r (List.mem_cons_of_mem _ member) at_
      simp only [UsageReport.renew_of_le open_, if_neg (UInt64.not_lt.mpr left), subtracted]
      split
      · exact later _ _
      · exact later _ _

/-- One hit on each limited metric of an application. -/
def oneHitEach (app : Application) : Metrics where
  entries := app.localState.entries.map fun entry => ⟨entry.1, 1⟩
  nodupKeys := by
    have keys : (app.localState.entries.map fun entry => (⟨entry.1, 1⟩ : Sigma fun _ : Str => UInt64)).keys =
        app.localState.entries.keys := by
      simp only [List.keys, List.map_map, Function.comp_def]
    unfold List.NodupKeys
    rw [keys]
    exact app.localState.nodupKeys

theorem mem_oneHitEach {app : Application} {metric : Str} {hits : UInt64} :
    ⟨metric, hits⟩ ∈ (oneHitEach app).entries ↔
      hits = 1 ∧ ∃ report, app.localState.lookup metric = some report := by
  constructor
  · intro member
    obtain ⟨⟨m, report⟩, limited, same⟩ := List.mem_map.mp member
    cases same
    exact ⟨rfl, report, AList.mem_lookup_iff.mpr limited⟩
  · rintro ⟨rfl, report, here⟩
    exact List.mem_map.mpr ⟨⟨metric, report⟩, AList.mem_lookup_iff.mp here, rfl⟩

/-- A refusal takes effect exactly where the application that is found, if any,
is used up. -/
theorem takesEffect_iff {found : Option Application} :
    TakesEffect found ↔ ∀ app, found = some app → UsedUp app := by
  constructor
  · intro takes app here
    refine or_iff_not_imp_right.mpr fun common => ?_
    obtain ⟨now, inside⟩ := not_not.mp common
    by_contra left
    have hits : HitsAll (oneHitEach app) app := fun metric report limited =>
      ⟨1, AList.mem_lookup_iff.mpr (mem_oneHitEach.mpr ⟨rfl, report, limited⟩), by decide⟩
    refine takes app here now inside app (.refl app) { defaultRequestData with metrics := oneHitEach app } hits
      (authorizes_iff.mpr (limitCheck_passes (oneHitEach app).nodupKeys ?_))
    intro metric count report member limited
    rw [(mem_oneHitEach.mp member).1]
    refine ⟨(inside metric report limited).2, ?_⟩
    have some_ : report.leftHits ≠ 0 := fun none_ => left ⟨metric, report, limited, none_⟩
    rw [UInt64.le_iff_toNat_le]
    exact Nat.pos_of_ne_zero fun zero => some_ (UInt64.toNat_inj.mp zero)
  · intro used app here now inside app' later data hits
    rcases used app here with ⟨metric, report, limited, none_⟩ | apart
    · have spent : Spent now metric app := ⟨report, limited, none_, (inside metric report limited).2⟩
      exact (spent.until later).not_authorizes hits
    · exact absurd ⟨now, inside⟩ apart

/-! What the refresh leaves in the cache -/

/-- A refusal with status 409 rebuilds the counters, if it can. -/
def SharedData.rebuilt (d : SharedData) (response : AuthorizationStatus) : SharedData :=
  match refreshedOf response with
  | some app => d.stored app.cacheKey.asString app
  | none => d

theorem alone_refreshApplication (response : AuthorizationStatus) (h : Host) :
    Alone Host.exec (fun h' r => h'.shared = h.shared.rebuilt response ∧
        r ≠ some (.error SingletonService.SingletonServiceError.authResponse))
      (SingletonService.refreshApplication response) h := by
  have kept : refreshedOf response = none → h.shared = h.shared.rebuilt response := by
    intro none_
    rw [SharedData.rebuilt, none_]
  rcases refreshApplication_spec response with
    ⟨none_, traps | ⟨e, own, fails⟩⟩ | ⟨app, result, formed, own, files⟩
  · rw [traps]
    exact ⟨kept none_, by simp⟩
  · rw [fails]
    exact ⟨kept none_, by simpa using own⟩
  · rw [files, SharedData.rebuilt, formed]
    refine alone_bind.mpr ((alone_setApplicationToCache _ app h).mono fun h' r set => ?_)
    obtain ⟨rfl, ⟨-, rfl⟩ | ⟨-, rfl⟩⟩ := set
    · exact ⟨rfl, by simp⟩
    · exact ⟨rfl, by simpa using own _⟩

theorem alone_handleAuthFailure (self : SingletonService) {tokenId : Nat} {cacheKey : CacheKey}
    (token : self.authRequests.lookup tokenId = some cacheKey) (h : Host) :
    Alone Host.exec (fun h' _ => h'.shared = h.shared.put cacheKey.asString none)
      (self.handleAuthFailure tokenId) h := by
  unfold SingletonService.handleAuthFailure
  rw [token]
  refine alone_bind.mpr (alone_bind.mpr (alone_call.mpr ?_))
  simp only [Host.exec, h.shared.set_overwrite _ _ SharedData.no_cas]
  rfl

/-- A response with status 409 refreshes the cache. Any other refusal erases
what is stored under the key of the token. -/
theorem alone_onRefusal (self : SingletonService) {tokenId : Nat} {cacheKey : CacheKey} {response : CallResponse}
    {status : Str} {data : AuthorizationStatus} (token : self.authRequests.lookup tokenId = some cacheKey)
    (answered : response.status = some status) (arrived : status ≠ timeoutStatus)
    (body : response.body = some (.parsed (.status data))) (refused : data.isAuthorized = false) (h : Host) :
    Alone Host.exec (fun h' _ => h'.shared = if status = SingletonService.rateLimitStatus then
        h.shared.rebuilt data else h.shared.put cacheKey.asString none)
      (self.onHttpCallResponse tokenId response) h := by
  unfold SingletonService.onHttpCallResponse
  rw [answered]
  dsimp only
  rw [if_pos arrived, body]
  dsimp only
  unfold SingletonService.handleAuthResponse
  simp only [refused, Bool.false_or, decide_eq_true_eq]
  split
  · refine alone_bind.mpr ((alone_refreshApplication data h).mono fun h' r rebuilt => ?_)
    obtain ⟨same, other⟩ := rebuilt
    match r with
    | none | some (.ok ()) => exact same
    | some (.error e) =>
      cases e with
      | authResponse => exact absurd rfl other
      | _ => exact same
  · exact after_some.mpr ((alone_handleAuthFailure self token h).mono fun h' _ erased => erased)

theorem refreshedOf_builtFrom {response : AuthorizationStatus} {app : Application}
    (formed : refreshedOf response = some app) : BuiltFrom response app := by
  obtain ⟨appKeys, appId, serviceId, reports, keys, id, service, reported, formed⟩ := refreshedOf_eq_some formed
  refine ⟨appKeys, appId, serviceId, reports, ?_, reported, Or.inr formed⟩
  simp only [CacheFilter.authResponseIds, keys, id, service]

/-- The last report of some metric has exactly its maximum as its current value. -/
def UsesUp (reports : List ResponseUsage) : Prop :=
  ∃ metric usage, lastReport metric reports = some usage ∧ usage.currentValue = usage.maxValue

/-- A rebuilt application is used up where a report uses it up: with any more
than the maximum the counter is full again. -/
theorem usedUp_refreshedOf_iff {response : AuthorizationStatus} {app : Application} {reports : List ResponseUsage}
    (formed : refreshedOf response = some app) (reported : response.usageReports = some reports) :
    UsedUp app ↔ UsesUp reports ∨ ¬∃ now, InsideWindows app now := by
  have built := (refreshedOf_builtFrom formed).localState reported
  refine or_congr_left ?_
  constructor
  · rintro ⟨metric, report, here, none_⟩
    obtain ⟨usage, last, converted⟩ := localStateOfReports_some built here
    refine ⟨metric, usage, last, ?_⟩
    rw [(UsageReport.ofResponse_leftHits converted).1, UInt64.sub_eq_iff_eq_add, UInt64.zero_add] at none_
    exact none_.symm
  · rintro ⟨metric, usage, last, same⟩
    obtain ⟨report, converted⟩ := localStateOfReports_converts built (lastReport_mem last).1
    refine ⟨metric, report, ?_, ?_⟩
    · rw [localStateOfReports_lookup built metric, last]
      exact converted
    · rw [(UsageReport.ofResponse_leftHits converted).1, same, UInt64.sub_self]

/-- The key of a token by user_key is that of an application only if the
mapping names the user_key itself. -/
theorem SharedData.applicationOf_erased_userKey (d : SharedData) {key : CacheKey} {userKey : UserKey}
    (by_ : key.appId = .userKey userKey) : (d.put key.asString none).applicationOf key =
      if d.appIdAt userKey = some userKey then none else d.applicationOf key := by
  have other : userKey ≠ key.asString := by
    intro same
    have lengths := congrArg List.length same
    simp only [CacheKey.asString, by_, AppIdentifier.asRef, List.length_append, List.length_cons] at lengths
    omega
  have itself : ∀ id, (key.setAppId (.appId id none)).asString = key.asString ↔ id = userKey := by
    intro id
    simp [CacheKey.asString, CacheKey.setAppId, by_, AppIdentifier.asRef]
  have mapping : (d.put key.asString none).appIdAt userKey = d.appIdAt userKey := by
    rw [SharedData.appIdAt, SharedData.value_put_ne _ _ other, SharedData.appIdAt]
  rw [SharedData.applicationOf_userKey by_, SharedData.applicationOf_userKey by_, mapping]
  cases d.appIdAt userKey with
  | none => rfl
  | some id => simp only [Option.bind_some, SharedData.applicationAt_erased, itself, Option.some.injEq]

/-- When a refusal takes effect on the application of a token. -/
def RefusalHolds (d : SharedData) (key : CacheKey) (status : Str) (data : AuthorizationStatus) : Prop :=
  if status = SingletonService.rateLimitStatus then
    ∀ app, (d.rebuilt data).applicationOf key = some app → UsedUp app
  else
    match key.appId with
    | .appId .. => True
    | .userKey userKey =>
      d.appIdAt userKey = some userKey ∨ ∀ app, d.applicationOf key = some app → UsedUp app

/-- The refusal of the application of a token takes effect exactly in the cases
of `RefusalHolds`. For an application that is rebuilt the reports tell whether
it is used up. -/
theorem refusal_takesEffect_iff (self : SingletonService) {tokenId : Nat} {cacheKey : CacheKey}
    {response : CallResponse} {status : Str} {data : AuthorizationStatus} (h : Host)
    (token : self.authRequests.lookup tokenId = some cacheKey) (answered : response.status = some status)
    (arrived : status ≠ timeoutStatus) (body : response.body = some (.parsed (.status data)))
    (refused : data.isAuthorized = false) :
    (TakesEffect
        (((self.onHttpCallResponse tokenId response).run Host.exec h).state.shared.applicationOf cacheKey) ↔
      RefusalHolds h.shared cacheKey status data) ∧
    ∀ app reports, refreshedOf data = some app → data.usageReports = some reports →
      (UsedUp app ↔ UsesUp reports ∨ ¬∃ now, InsideWindows app now) := by
  refine ⟨?_, fun _ _ => usedUp_refreshedOf_iff⟩
  have left := alone_iff_run.mp (alone_onRefusal self token answered arrived body refused h)
  rw [takesEffect_iff, left]
  unfold RefusalHolds
  split
  · exact Iff.rfl
  · cases by_ : cacheKey.appId with
    | appId id key =>
      have gone : (h.shared.put cacheKey.asString none).applicationOf cacheKey = none := by
        simp only [SharedData.applicationOf, by_, SharedData.applicationAt_erased, if_true]
      rw [gone]
      exact iff_of_true (by simp) trivial
    | userKey userKey =>
      rw [h.shared.applicationOf_erased_userKey by_]
      split
      · rename_i itself
        exact iff_of_true (by simp) (Or.inl itself)
      · rename_i other
        exact (or_iff_right other).symm

/-- A singleton that waits for the refresh of the application `a` of `s`. -/
def refreshing : SingletonService :=
  { SingletonService.start (some 7) {} with
    authRequests := (∅ : TokenMap CacheKey).insert 1 ⟨['s'], .appId ['a'] none⟩ }

theorem refusal_takesEffect_exhausted :
    TakesEffect (((refreshing.onHttpCallResponse 1 (callResponse "409" (fiveHits false 5))).run
      Host.exec quietHost).state.shared.applicationOf ⟨['s'], .appId ['a'] none⟩) := by
  refine (refusal_takesEffect_iff refreshing quietHost rfl rfl (by decide) rfl rfl).1.mpr ?_
  intro app found
  cases found
  exact Or.inl ⟨"hits".toList, _, rfl, rfl⟩

/-- What the refresh makes of six hits out of five. -/
def overrunReport : UsageReport where
  periodWindow := { start := .fromSecs 999960, «end» := .fromSecs 1000020, window := .minute }
  leftHits := 18446744073709551615
  maxValue := 5

def overrun : Application := cachedWith ((∅ : HashMap UsageReport).insert "hits".toList overrunReport)

theorem overrun_lookup {metric : Str} {report : UsageReport}
    (here : overrun.localState.lookup metric = some report) : report = overrunReport := by
  by_cases same : metric = "hits".toList
  · subst same
    rw [overrun, cachedWith, AList.lookup_insert] at here
    exact (Option.some.inj here).symm
  · rw [overrun, cachedWith, AList.lookup_insert_ne same] at here
    cases here

/-- With six hits used out of five the counter wraps, and there are hits left
for nearly ever. -/
theorem not_takesEffect_overrun :
    ¬TakesEffect (((refreshing.onHttpCallResponse 1 (callResponse "409" (fiveHits false 6))).run
      Host.exec quietHost).state.shared.applicationOf ⟨['s'], .appId ['a'] none⟩) := by
  have token : refreshing.authRequests.lookup 1 = some ⟨['s'], .appId ['a'] none⟩ := rfl
  have answered : (callResponse "409" (fiveHits false 6)).status = some "409".toList := rfl
  have left := alone_iff_run.mp (alone_onRefusal refreshing token answered (by decide) rfl rfl quietHost)
  rw [takesEffect_iff, left]
  intro used
  rcases used overrun rfl with ⟨metric, report, here, none_⟩ | apart
  · rw [overrun_lookup here] at none_
    exact absurd none_ (by decide)
  · refine apart ⟨.fromSecs 1000000, fun metric report here => ?_⟩
    rw [overrun_lookup here]
    decide

end ThreescaleCache
