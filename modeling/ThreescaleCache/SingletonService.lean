import ThreescaleCache.LimitCheck
import ThreescaleCache.Response

namespace ThreescaleCache
namespace SingletonService

def rateLimitStatus : Str := "409".toList

inductive SingletonServiceError where
  | getCacheFailure (key : Str)
  | setCacheFailure (key : Str) (detail : Str ⊕ SetFailure)
  | emptyAuthUsages (appId : Str)
  | authResponse
  | authResponseProcess
  | authAppKeysMissing
  | negativeTimeErr
  | updateMetricsFail (error : UpdateMetricsError)
deriving DecidableEq

/-- Updates the local application cache if the cache update fails from the
cache filter for a particular request. -/
def updateApplicationCache (data : ThreescaleData) (reqTime : Duration) :
    HostProg (Except SingletonServiceError Unit) := do
  let cacheKey : CacheKey := { serviceId := data.serviceId, appId := data.appId }
  match ← getApplicationFromCache cacheKey with
  | .ok (application, cas) =>
    match ← limitCheckAndUpdateApplication data application cas reqTime with
    | .ok _ => pure (.ok ())
    | .error (.cacheUpdateFail reason) =>
      pure (.error (.setCacheFailure cacheKey.asString (.inr reason)))
    | .error e => pure (.error (.updateMetricsFail e))
  | .error _ => pure (.error (.getCacheFailure cacheKey.asString))

/-- The application that the singleton forms from a response with these
reports and keys. `none` is the failure on a negative time. -/
def refreshedApplication (response : AuthorizationStatus) (reports : List ResponseUsage)
    (appKeys : ListAppKeys) (appId : AppId) (serviceId : ServiceId) : Option Application := do
  let localState ← localStateOfReports reports ∅
  some
    { appId := .appId appId none
      serviceId := serviceId
      localState := localState
      metricHierarchy := hierarchyOfResponse response.hierarchy
      appKeys := some appKeys.keys }

/-- An authorized response, or one with status 409. The ids are unwrapped. -/
def refreshApplication (response : AuthorizationStatus) :
    HostProg (Except SingletonServiceError Unit) :=
  match response.appKeys with
  | none => pure (.error .authAppKeysMissing)
  | some appKeys =>
    match appKeys.appId, appKeys.serviceId with
    | some appId, some serviceId =>
      match response.usageReports with
      | none => pure (.error (.emptyAuthUsages appId))
      | some reports =>
        match refreshedApplication response reports appKeys appId serviceId with
        | none => pure (.error .negativeTimeErr)
        | some app => do
          match ← setApplicationToCache app.cacheKey.asString app 0 with
          | .ok () => pure (.ok ())
          | .error _ => pure (.error (.setCacheFailure serviceId (.inl appId)))
    | _, _ => .trap

/-- Handles the authorize response received from the 3scale SM API. -/
def handleAuthResponse (response : ResponseBody) (status : Str) :
    HostProg (Except SingletonServiceError Unit) :=
  match response with
  | .notUtf8 => .trap
  | .parsed (.status data) =>
    if data.isAuthorized || status = rateLimitStatus then refreshApplication data
    else pure (.error .authResponse)
  | .parsed (.error _) => pure (.error .authResponse)
  | .unparsable => pure (.error .authResponseProcess)

end SingletonService

/-- The application that the refresh with a response of status 409 files. -/
def refreshedOf (response : AuthorizationStatus) : Option Application := do
  let appKeys ← response.appKeys
  let appId ← appKeys.appId
  let serviceId ← appKeys.serviceId
  let reports ← response.usageReports
  SingletonService.refreshedApplication response reports appKeys appId serviceId

theorem refreshedOf_eq_some {response : AuthorizationStatus} {app : Application}
    (formed : refreshedOf response = some app) :
    ∃ appKeys appId serviceId reports, response.appKeys = some appKeys ∧ appKeys.appId = some appId ∧
      appKeys.serviceId = some serviceId ∧ response.usageReports = some reports ∧
      SingletonService.refreshedApplication response reports appKeys appId serviceId = some app := by
  obtain ⟨appKeys, keys, formed⟩ := Option.bind_eq_some_iff.mp formed
  obtain ⟨appId, appId_, formed⟩ := Option.bind_eq_some_iff.mp formed
  obtain ⟨serviceId, serviceId_, formed⟩ := Option.bind_eq_some_iff.mp formed
  obtain ⟨reports, reported, formed⟩ := Option.bind_eq_some_iff.mp formed
  exact ⟨appKeys, appId, serviceId, reports, keys, appId_, serviceId_, reported, formed⟩

/-- A refresh panics, fails with an error of its own, or files one application
and returns what became of the write. -/
theorem refreshApplication_spec (response : AuthorizationStatus) :
    (refreshedOf response = none ∧ (SingletonService.refreshApplication response = .trap ∨
      ∃ e, e ≠ .authResponse ∧ SingletonService.refreshApplication response = pure (.error e))) ∨
    ∃ app, ∃ result : Except SetFailure Unit → Except SingletonService.SingletonServiceError Unit,
      refreshedOf response = some app ∧ (∀ r, result r ≠ .error .authResponse) ∧
      SingletonService.refreshApplication response =
        setApplicationToCache app.cacheKey.asString app 0 >>= fun r => pure (result r) := by
  unfold SingletonService.refreshApplication
  cases keys : response.appKeys with
  | none => exact Or.inl ⟨by simp [refreshedOf, keys], Or.inr ⟨_, by simp, rfl⟩⟩
  | some appKeys =>
    cases appId_ : appKeys.appId with
    | none => exact Or.inl ⟨by simp [refreshedOf, keys, appId_], Or.inl (by simp only [appId_])⟩
    | some appId =>
      cases serviceId_ : appKeys.serviceId with
      | none =>
        exact Or.inl ⟨by simp [refreshedOf, keys, appId_, serviceId_], Or.inl (by simp only [appId_, serviceId_])⟩
      | some serviceId =>
        simp only [appId_, serviceId_]
        cases reported : response.usageReports with
        | none => exact Or.inl ⟨by simp [refreshedOf, keys, reported], Or.inr ⟨_, by simp, rfl⟩⟩
        | some reports =>
          have same : refreshedOf response =
              SingletonService.refreshedApplication response reports appKeys appId serviceId := by
            simp [refreshedOf, keys, appId_, serviceId_, reported]
          dsimp only
          cases formed : SingletonService.refreshedApplication response reports appKeys appId serviceId with
          | none => exact Or.inl ⟨same.trans formed, Or.inr ⟨_, by simp, rfl⟩⟩
          | some app =>
            refine Or.inr ⟨app, fun
              | .ok () => .ok ()
              | .error _ => .error (.setCacheFailure serviceId (.inl appId)), same.trans formed, ?_, ?_⟩
            · rintro (_ | _) <;> simp
            · refine bind_congr fun r => ?_
              cases r <;> rfl

end ThreescaleCache
