import ThreescaleCache.CacheHitRules
import ThreescaleCache.Interaction.Folding
import ThreescaleCache.SingletonService

namespace ThreescaleCache
open Interaction

/-! The filter and the singleton convert the same responses, each by its own
copy of the conversion. What each makes of an authorized response is compared
here. -/

/-- The write of an application under its own key, overwriting what is there. -/
def writeOf (app : Application) : HostCall :=
  .setSharedData app.cacheKey.asString (some (.application app)) (some 0)

/-- The end of `handle_auth_response` of the filter, once `app` is built. -/
def CacheFilter.onBuilt (f : CacheFilter) (app : Application) :
    HostProg (CacheFilter × Except AuthResponseError Unit) := do
  match ← f.handleCacheHit app 0 with
  | (f, .ok ()) => pure (f, .ok ())
  | (f, .error e) => pure (f, .error (.cacheHitErr e))

/-- The filter gets as far as building `app` from the response. -/
structure CacheFilter.Builds (f : CacheFilter) (response : AuthorizationStatus) (app : Application) :
    Prop where
  formed : rebuilt response = some app
  reached : ∃ (t : List HostEvent) (f' : CacheFilter), f'.state.cacheKey = app.cacheKey ∧
    Prog.Path (f.handleAuthResponse response) t (f'.onBuilt app)

/-- The filter rejects the response: it never returns without an error, and
writes no application. -/
structure CacheFilter.Rejects (f : CacheFilter) (response : AuthorizationStatus) : Prop where
  unformed : rebuilt response = none
  failed : ∀ t f' result, Prog.Path (f.handleAuthResponse response) t (.done (f', result)) →
    ∃ e, result = .error e

/-- With some replies, a handler of the singleton comes to write `app`. -/
def Writes (p : HostProg (Except SingletonService.SingletonServiceError Unit)) (app : Application) : Prop :=
  ∃ t r q, Prog.Path p (t ++ [⟨writeOf app, r⟩]) q

/-- A handler of the singleton stores `app`: it reads what is stored and, if
that can be read, writes `app` next. It writes no other application and nowhere
else, and succeeds only if the write did. -/
structure Stores (p : HostProg (Except SingletonService.SingletonServiceError Unit))
    (app : Application) : Prop where
  comes : ∃ k, p = .call (.getSharedData app.cacheKey.asString) k ∧
    ∀ reading, ∃ rest, k (.ok reading) = .call (writeOf app) rest
  only : ∀ t q, Prog.Path p t q → ∀ key other cas r,
    ⟨.setSharedData key (some (.application other)) cas, r⟩ ∈ t →
    HostCall.setSharedData key (some (.application other)) cas = writeOf app
  returned : ∀ t, Prog.Path p t (.done (.ok ())) → ⟨writeOf app, .ok ()⟩ ∈ t

/-! The filter -/

theorem recordAppId_answered (f : CacheFilter) (appId : AppId) :
    ∃ t f', Prog.Path (f.recordAppId appId) t (.done (f', .ok ())) := by
  unfold CacheFilter.recordAppId
  split
  · rename_i userKey _
    have answered : Prog.Path (setAppIdToCache userKey appId)
        [⟨.setSharedData userKey (some (.appId appId)) none, .ok ()⟩] (.done (.ok ())) := .next .start
    exact ⟨_, _, answered.bind _⟩
  · exact ⟨[], f, .start⟩

theorem CacheFilter.builds_iff (f : CacheFilter) (response : AuthorizationStatus) (app : Application) :
    f.Builds response app ↔ rebuilt response = some app := by
  refine ⟨Builds.formed, fun formed => ⟨formed, ?_⟩⟩
  obtain ⟨appKeys, appId, serviceId, ids, formed⟩ := rebuilt_some formed
  obtain ⟨t, f₁, answered⟩ := recordAppId_answered f appId
  obtain ⟨state, run, same⟩ := Option.bind_eq_some_iff.mp formed
  refine ⟨t, { f₁ with state.cacheKey := ⟨serviceId, .appId appId none⟩ }, ?_, ?_⟩
  · rw [← Option.some.inj same]
    rfl
  · unfold handleAuthResponse
    simp only [ids]
    refine answered.bind_done ?_
    simp only [formed]
    rfl

/-! The singleton -/

/-- A refresh answers with an error at once. -/
def Refuses (p : HostProg (Except SingletonService.SingletonServiceError Unit)) : Prop :=
  ∃ e, p = pure (.error e)

/-- What writes an application makes a call. -/
theorem Writes.calls {p : HostProg (Except SingletonService.SingletonServiceError Unit)}
    {app : Application} (writes : Writes p app) : ∃ c k, p = .call c k := by
  obtain ⟨t, r, q, path⟩ := writes
  cases p with
  | call c k => exact ⟨c, k, rfl⟩
  | done | trap | spin =>
    generalize all : t ++ [⟨writeOf app, r⟩] = u at path
    cases path
    exact absurd all (List.append_ne_nil_of_right_ne_nil _ (List.cons_ne_nil _ _))

theorem Refuses.not_writes {p : HostProg (Except SingletonService.SingletonServiceError Unit)}
    (refuses : Refuses p) (app : Application) : ¬Writes p app := by
  intro writes
  obtain ⟨e, rfl⟩ := refuses
  obtain ⟨c, k, same⟩ := writes.calls
  cases same

/-- The stored application is the only one that is written. -/
theorem Stores.unique {p : HostProg (Except SingletonService.SingletonServiceError Unit)}
    {app app' : Application} (writes : Writes p app) (stores : Stores p app') : app = app' := by
  obtain ⟨t, r, q, path⟩ := writes
  have same : writeOf app = writeOf app' :=
    stores.only _ q path _ _ _ r (List.mem_append_right t List.mem_cons_self)
  simp only [writeOf, HostCall.setSharedData.injEq, Option.some.injEq, SharedValue.application.injEq] at same
  exact same.2.1

/-- A call of the singleton may write `app` under its own key, and no other
application. -/
def OnlyWrites (app : Application) (c : HostCall) : Prop :=
  ∀ key other cas, c = .setSharedData key (some (.application other)) cas → c = writeOf app

/-- The party that knows its calls, and makes no other write. -/
noncomputable def storing (app : Application) : HostProtocol (List HostEvent) :=
  recording fun _ => OnlyWrites app

theorem stores_of_follows {p : HostProg (Except SingletonService.SingletonServiceError Unit)}
    {app : Application} (comes : ∃ k, p = .call (.getSharedData app.cacheKey.asString) k ∧
      ∀ reading, ∃ rest, k (.ok reading) = .call (writeOf app) rest)
    (follows : Follows (storing app)
      (fun t result => result = .ok () → ⟨writeOf app, .ok ()⟩ ∈ t) p []) : Stores p app := by
  have paths := follows_recording_iff.mp follows
  refine ⟨comes, ?_, ?_⟩
  · intro t q path key other cas r member
    obtain ⟨before, after, split⟩ := List.append_of_mem member
    exact (paths t q path).1 before _ r after split key other cas rfl
  · intro t path
    exact (paths t _ path).2 _ rfl rfl

theorem onlyWrites_sideCall {app : Application} {c : HostCall} (side : SideCall c) :
    OnlyWrites app c := by
  intro key other cas same
  cases side with
  | read => cases same
  | count => cases same

theorem onlyWrites_writeOf (app : Application) : OnlyWrites app (writeOf app) := by
  intro key other cas _
  rfl

theorem storing_keeps (app : Application) : (storing app).Keeps (· <+: ·) SideCall :=
  recording_keeps fun _ _ => onlyWrites_sideCall

/-- A write that comes through is among the calls, and stays there. -/
theorem storing_setApplicationToCache (app : Application) :
    Follows (storing app) (fun t result => result = .ok () → ⟨writeOf app, .ok ()⟩ ∈ t)
      (setApplicationToCache app.cacheKey.asString app 0) [] := by
  refine follows_setApplicationToCache (.of_keeps (storing_keeps app)) ?_ ?_ ?_
  · intro t t' result later stored ok
    exact later.subset (stored ok)
  · intro e failed
    cases failed
  · intro t _
    refine ⟨onlyWrites_writeOf app, fun r t' known => ?_⟩
    rw [recording_next.mp known]
    cases r with
    | ok => exact fun _ => List.mem_append_right t List.mem_cons_self
    | error e => exact fun failed => by cases failed

theorem stores_refreshed {app : Application} {next : Except SetFailure Unit →
      HostProg (Except SingletonService.SingletonServiceError Unit)}
    (onOk : next (.ok ()) = pure (.ok ())) (onError : ∀ e, Refuses (next (.error e))) :
    Stores (setApplicationToCache app.cacheKey.asString app 0 >>= next) app := by
  refine stores_of_follows ?_ ?_
  · refine ⟨_, rfl, fun (value, cas) => ?_⟩
    cases value with
    | some value => exact ⟨_, rfl⟩
    | none => exact ⟨_, rfl⟩
  · refine follows_bind.mpr ((storing_setApplicationToCache app).mono fun t result stored => ?_)
    cases result with
    | ok =>
      rw [onOk]
      exact fun _ => stored rfl
    | error e =>
      obtain ⟨_, refused⟩ := onError e
      rw [refused]
      exact fun failed => by cases failed

/-- An authorized response, and one with status 409, is used for a refresh. -/
theorem handleAuthResponse_authorized {response : AuthorizationStatus} (status : Str)
    (authorized : response.isAuthorized = true) :
    SingletonService.handleAuthResponse (.parsed (.status response)) status =
      SingletonService.refreshApplication response := by
  simp only [SingletonService.handleAuthResponse, authorized, Bool.true_or, if_true]

/-- The two copies of the conversion are one function. -/
theorem refreshedApplication_eq {response : AuthorizationStatus} {reports : List ResponseUsage}
    (reported : response.usageReports = some reports) (appKeys : ListAppKeys) (appId : AppId)
    (serviceId : ServiceId) :
    SingletonService.refreshedApplication response reports appKeys appId serviceId =
      CacheFilter.authResponseApplication response appKeys appId serviceId := by
  simp only [SingletonService.refreshedApplication, CacheFilter.authResponseApplication, reported,
    Option.getD_some]

/-- With the ids present, the refresh decides on the same application as the
filter, unless there are no usage reports. -/
theorem refreshApplication_cases {response : AuthorizationStatus} {app : Application}
    (formed : rebuilt response = some app) :
    (response.usageReports.isSome ∧ Stores (SingletonService.refreshApplication response) app) ∨
      (response.usageReports = none ∧
        SingletonService.refreshApplication response = pure (.error (.emptyAuthUsages app.appId.asRef))) := by
  unfold rebuilt CacheFilter.authResponseIds at formed
  unfold SingletonService.refreshApplication
  cases keys : response.appKeys with
  | none => simp only [keys, reduceCtorEq] at formed
  | some appKeys =>
    cases appId_ : appKeys.appId with
    | none => simp only [keys, appId_, reduceCtorEq] at formed
    | some appId =>
      cases serviceId_ : appKeys.serviceId with
      | none => simp only [keys, appId_, serviceId_, reduceCtorEq] at formed
      | some serviceId =>
        simp only [keys, appId_, serviceId_] at formed ⊢
        cases reported : response.usageReports with
        | none =>
          obtain ⟨_, _, same⟩ := Option.bind_eq_some_iff.mp formed
          rw [← Option.some.inj same]
          exact Or.inr ⟨rfl, rfl⟩
        | some reports =>
          simp only [refreshedApplication_eq reported, formed]
          exact Or.inl ⟨rfl, stores_refreshed rfl fun e => ⟨_, rfl⟩⟩

/-- What the filter rejects the refresh refuses, if the ids are not missing
inside of the list of keys. -/
theorem refreshApplication_rejected {response : AuthorizationStatus}
    (unformed : rebuilt response = none)
    (ids : ∀ keys, response.appKeys = some keys → keys.appId.isSome ∧ keys.serviceId.isSome) :
    Refuses (SingletonService.refreshApplication response) := by
  unfold rebuilt CacheFilter.authResponseIds at unformed
  unfold SingletonService.refreshApplication
  cases keys : response.appKeys with
  | none => exact ⟨_, rfl⟩
  | some appKeys =>
    obtain ⟨appId_, serviceId_⟩ := ids appKeys keys
    obtain ⟨appId, appId_⟩ := Option.isSome_iff_exists.mp appId_
    obtain ⟨serviceId, serviceId_⟩ := Option.isSome_iff_exists.mp serviceId_
    simp only [keys, appId_, serviceId_] at unformed ⊢
    cases reported : response.usageReports with
    | none => exact ⟨_, rfl⟩
    | some reports =>
      simp only [refreshedApplication_eq reported, unformed]
      exact ⟨_, rfl⟩

theorem refreshApplication_trap {response : AuthorizationStatus} {appKeys : ListAppKeys}
    (keys : response.appKeys = some appKeys)
    (missing : ¬(appKeys.appId.isSome ∧ appKeys.serviceId.isSome)) :
    SingletonService.refreshApplication response = .trap := by
  unfold SingletonService.refreshApplication
  simp only [keys]
  split
  · rename_i appId serviceId appId_ serviceId_
    exact absurd ⟨by rw [appId_]; rfl, by rw [serviceId_]; rfl⟩ missing
  · rfl

/-- What the refresh writes the filter builds. -/
theorem refreshApplication_writes {response : AuthorizationStatus} {app : Application}
    (writes : Writes (SingletonService.refreshApplication response) app) :
    rebuilt response = some app := by
  cases formed : rebuilt response with
  | some built =>
    rcases refreshApplication_cases formed with ⟨_, stored⟩ | ⟨_, refused⟩
    · rw [Stores.unique writes stored]
    · exact absurd writes (Refuses.not_writes ⟨_, refused⟩ app)
  | none =>
    by_cases ids : ∀ keys, response.appKeys = some keys → keys.appId.isSome ∧ keys.serviceId.isSome
    · exact absurd writes ((refreshApplication_rejected formed ids).not_writes app)
    · simp only [not_forall] at ids
      obtain ⟨appKeys, keys, missing⟩ := ids
      obtain ⟨c, k, same⟩ := writes.calls
      rw [refreshApplication_trap keys missing] at same
      cases same

/-- How the two treat one authorized response. The singleton has a guard of
its own against responses without usage reports, and unwraps the ids. -/
structure SameApplication (f : CacheFilter) (response : AuthorizationStatus)
    (refresh : HostProg (Except SingletonService.SingletonServiceError Unit)) : Prop where
  stored : ∀ app, f.Builds response app → response.usageReports.isSome → Stores refresh app
  built : ∀ app, Writes refresh app → f.Builds response app
  unlimited : ∀ app, f.Builds response app → response.usageReports = none →
    refresh = pure (.error (.emptyAuthUsages app.appId.asRef))
  rejected : f.Rejects response →
    (∀ keys, response.appKeys = some keys → keys.appId.isSome ∧ keys.serviceId.isSome) →
    Refuses refresh

/-- Filter and singleton make the same application of every authorized
response that has usage reports. -/
theorem authorized_sameApplication (f : CacheFilter) (response : AuthorizationStatus) (status : Str)
    (authorized : response.isAuthorized = true) :
    SameApplication f response
      (SingletonService.handleAuthResponse (.parsed (.status response)) status) := by
  rw [handleAuthResponse_authorized status authorized]
  refine ⟨?_, ?_, ?_, ?_⟩
  · intro app builds reported
    rcases refreshApplication_cases builds.formed with ⟨_, stored⟩ | ⟨absent, _⟩
    · exact stored
    · rw [absent] at reported
      cases reported
  · intro app writes
    exact (f.builds_iff response app).mpr (refreshApplication_writes writes)
  · intro app builds absent
    rcases refreshApplication_cases builds.formed with ⟨reported, _⟩ | ⟨_, refused⟩
    · rw [absent] at reported
      cases reported
    · exact refused
  · intro rejects ids
    exact refreshApplication_rejected rejects.unformed ids

/-- An authorized response for application `a` with these usage reports. -/
def authorizedWith (usageReports : Option (List ResponseUsage)) : AuthorizationStatus where
  isAuthorized := true
  reason := none
  usageReports := usageReports
  hierarchy := none
  appKeys := some { serviceId := some ['s'], appId := some ['a'], keys := [] }

/-- A limit of 100 hits a day, of which 10 are used. -/
def dayLimit : ResponseUsage where
  metric := "hits".toList
  period := .day
  periodStart := 950400
  periodEnd := 1036800
  maxValue := 100
  currentValue := 10

theorem sameApplication_dayLimit :
    (authorizedWith (some [dayLimit])).isAuthorized = true ∧
      SameApplication (hitContext 1) (authorizedWith (some [dayLimit]))
        (SingletonService.handleAuthResponse (.parsed (.status (authorizedWith (some [dayLimit]))))
          "200".toList) :=
  ⟨rfl, authorized_sameApplication (hitContext 1) (authorizedWith (some [dayLimit])) "200".toList rfl⟩

/-- Without usage reports the filter builds an application that the singleton
never writes. -/
theorem not_written_unlimited :
    (hitContext 1).Builds (authorizedWith none) (cachedWith ∅) ∧
      ¬Writes (SingletonService.handleAuthResponse (.parsed (.status (authorizedWith none))) "200".toList)
        (cachedWith ∅) := by
  have builds : (hitContext 1).Builds (authorizedWith none) (cachedWith ∅) :=
    (CacheFilter.builds_iff _ _ _).mpr rfl
  have same : SingletonService.handleAuthResponse (.parsed (.status (authorizedWith none))) "200".toList =
      SingletonService.refreshApplication (authorizedWith none) := handleAuthResponse_authorized _ rfl
  refine ⟨builds, ?_⟩
  rw [same]
  rcases refreshApplication_cases builds.formed with ⟨reported, _⟩ | ⟨_, refused⟩
  · cases reported
  · exact Refuses.not_writes ⟨_, refused⟩ _

end ThreescaleCache
