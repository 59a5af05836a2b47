import Mathlib.Data.List.TakeWhile
import ThreescaleCache.Serving
import ThreescaleCache.UsageLimits

namespace ThreescaleCache
open Interaction

/-- Every report has at most its maximum left. -/
def Application.WithinLimits (app : Application) : Prop :=
  ∀ metric report, app.localState.lookup metric = some report → report.leftHits ≤ report.maxValue

theorem UsageReport.renew_within {report renewed : UsageReport} {now : Duration}
    (h : report.renew now = some renewed) (within : report.leftHits ≤ report.maxValue) :
    renewed.leftHits ≤ renewed.maxValue := by
  rcases UsageReport.renew_cases h with rfl | ⟨start, stop, rfl⟩
  · exact within
  · exact UInt64.le_refl _

theorem UsageReport.charge_within {report : UsageReport} {hits : UInt64}
    (left : hits ≤ report.leftHits) (within : report.leftHits ≤ report.maxValue) :
    (report.charge hits).leftHits ≤ (report.charge hits).maxValue := by
  unfold UsageReport.charge
  dsimp only
  have smaller := UInt64.toNat_sub_of_le report.leftHits hits left
  rw [UInt64.le_iff_toNat_le] at within ⊢
  omega

theorem Application.WithinLimits.setReport {app : Application} (within : app.WithinLimits) (metric : Str)
    {report : UsageReport} (h : report.leftHits ≤ report.maxValue) :
    (app.setReport metric report).WithinLimits := by
  intro other found at_
  by_cases same : other = metric
  · subst same
    rw [Application.setReport_lookup] at at_
    cases Option.some.inj at_
    exact h
  · rw [Application.setReport_lookup_ne _ _ same] at at_
    exact within other found at_

/-- A limit check that passes keeps all counters within their limits. -/
theorem limitCheck_pass_within {now : Duration} {metrics : List (Sigma fun _ : Str => UInt64)}
    {app app' : Application} {info info' : RateLimitInfo}
    (pass : limitCheck now metrics app info = .pass app' info') (within : app.WithinLimits) :
    app'.WithinLimits := by
  induction metrics generalizing app info with
  | nil =>
    unfold limitCheck at pass
    cases pass
    exact within
  | cons entry rest ih =>
    rcases limitCheck_cons_pass pass with ⟨_, passRest⟩ |
      ⟨found, report, _, here, renewed, left, passRest⟩
    · exact ih passRest within
    · refine ih passRest (within.setReport _ ?_)
      exact UsageReport.charge_within left (UsageReport.renew_within renewed (within _ _ here))

theorem Passes.withinLimits {app app' : Application} (passes : Passes app app')
    (within : app.WithinLimits) : app'.WithinLimits := by
  obtain ⟨_, _, _, pass⟩ := passes
  exact limitCheck_pass_within pass within

/-- The usage of a response is at most its maximum. -/
def ResponseUsage.Within (usage : ResponseUsage) : Prop := usage.currentValue ≤ usage.maxValue

/-- Reports within their limits give an application within its limits. -/
theorem localStateOfReports_within {reports : List ResponseUsage} {state : HashMap UsageReport}
    (run : localStateOfReports reports ∅ = some state) (within : ∀ usage ∈ reports, usage.Within)
    {metric : Str} {report : UsageReport} (here : state.lookup metric = some report) :
    report.leftHits ≤ report.maxValue := by
  obtain ⟨usage, last, converted⟩ := localStateOfReports_some run here
  obtain ⟨left, max⟩ := UsageReport.ofResponse_leftHits converted
  have bound : usage.currentValue ≤ usage.maxValue := within usage (lastReport_mem last).1
  have smaller := UInt64.toNat_sub_of_le usage.maxValue usage.currentValue bound
  rw [left, max, UInt64.le_iff_toNat_le]
  omega

/-! The callbacks, and the reports that they handle -/

inductive Callback where
  | requestHeaders (lib : ThirdParty) (rounds : Nat) (f : CacheFilter) (headers : Str → Option Str)
  | callResponse (f : CacheFilter) (response : CallResponse)
  | queueReady (root : CacheFilterRoot) (queueId : Nat)
  | refreshResponse (body : ResponseBody) (status : Str)
  | singletonUpdate (data : ThreescaleData) (reqTime : Duration)

def Callback.program : Callback → HostProg Unit
  | .requestHeaders lib rounds f headers => f.onHttpRequestHeaders lib rounds headers >>= fun _ => .done ()
  | .callResponse f response => f.onHttpCallResponse response >>= fun _ => .done ()
  | .queueReady root queueId => root.onQueueReady queueId
  | .refreshResponse body status => SingletonService.handleAuthResponse body status >>= fun _ => .done ()
  | .singletonUpdate data reqTime =>
    SingletonService.updateApplicationCache data reqTime >>= fun _ => .done ()

/-- The reports that the loop of a handler converts: up to one with a time
that does not convert, if the ids are there. -/
def convertedReports (response : AuthorizationStatus) : List ResponseUsage :=
  match CacheFilter.authResponseIds response with
  | .ok _ => (response.usageReports.getD []).takeWhile fun usage => (UsageReport.ofResponse usage).isSome
  | .error _ => []

def Callback.handledReports : Callback → List ResponseUsage
  | .callResponse _ ⟨status, some (.parsed (.status response))⟩ =>
    if status = some timeoutStatus then [] else convertedReports response
  | .refreshResponse (.parsed (.status response)) status =>
    if response.isAuthorized || status = SingletonService.rateLimitStatus then convertedReports response
    else []
  | _ => []

/-- No report says that more was used than the maximum. -/
def Callback.WithinLimits (cb : Callback) : Prop := ∀ usage ∈ cb.handledReports, usage.Within

variable {ι : Type} [DecidableEq ι]

/-- Threads that run callbacks, one after the other, all on one host. -/
def cacheParties (ι : Type) (admits : Callback → Prop) : Parties ι HostCall HostCall.Reply Host Unit where
  exec := fun _ => Host.exec
  env := Host.Env
  resume := fun _ _ _ p => ∃ cb, admits cb ∧ p = cb.program

def idle (ι : Type) (h : Host) : Config ι HostCall HostCall.Reply Host Unit where
  shared := h
  procs := fun _ => .done ()
  trace := []

/-- All applications in shared data are within their limits. -/
def QuotasKept (d : SharedData) : Prop := d.Stored fun _ app => app.WithinLimits

/-! All callbacks follow the protocol of serving parties -/

theorem within_of_converted {response : AuthorizationStatus} {appKeys : ListAppKeys} {appId : AppId}
    {serviceId : ServiceId} {reports : List ResponseUsage} {state : HashMap UsageReport}
    (ids : CacheFilter.authResponseIds response = .ok (appKeys, appId, serviceId))
    (reported : response.usageReports.getD [] = reports)
    (run : localStateOfReports reports ∅ = some state)
    (within : ∀ usage ∈ convertedReports response, usage.Within) :
    ∀ usage ∈ reports, usage.Within := by
  have all : convertedReports response = reports := by
    unfold convertedReports
    rw [ids, reported]
    refine List.takeWhile_eq_self_iff.mpr fun usage member => ?_
    obtain ⟨report, converted⟩ := localStateOfReports_converts run member
    rw [converted]
    rfl
  rwa [all] at within

theorem rebuilt_within {response : AuthorizationStatus} {app : Application}
    (formed : rebuilt response = some app)
    (within : ∀ usage ∈ convertedReports response, usage.Within) : app.WithinLimits := by
  obtain ⟨appKeys, appId, serviceId, ids, formed⟩ := rebuilt_some formed
  obtain ⟨state, run, same⟩ := Option.bind_eq_some_iff.mp formed
  cases Option.some.inj same
  exact fun metric report => localStateOfReports_within run (within_of_converted ids rfl run within)

theorem refreshedApplication_within {response : AuthorizationStatus} {appKeys : ListAppKeys}
    {appId : AppId} {serviceId : ServiceId} {reports : List ResponseUsage} {app : Application}
    (ids : CacheFilter.authResponseIds response = .ok (appKeys, appId, serviceId))
    (reported : response.usageReports = some reports)
    (formed : SingletonService.refreshedApplication response reports appKeys appId serviceId = some app)
    (within : ∀ usage ∈ convertedReports response, usage.Within) : app.WithinLimits := by
  obtain ⟨state, run, same⟩ := Option.bind_eq_some_iff.mp formed
  cases Option.some.inj same
  have all := within_of_converted ids (by rw [reported]; rfl) run within
  exact fun metric report => localStateOfReports_within run all

variable {first : Application → Prop} {safe : Str → Prop} {ℓ : Progress}

theorem serving_setApplicationToCache {app : Application} {cas : Nat} (inHand : InHand first ℓ app cas) :
    Follows (serving first safe) (fun _ _ => True)
      (setApplicationToCache app.cacheKey.asString app cas) ℓ :=
  follows_setApplicationToCache (.of_keeps serving_keeps) (fun _ _ _ _ _ => trivial) (fun _ => trivial)
    fun _ later => ⟨.application app app cas (inHand.le later) (Or.inl rfl), fun _ _ _ => trivial⟩

theorem serving_refreshApplication {response : AuthorizationStatus} (dispatched : ℓ.dispatched = true)
    (answered : ℓ.answered = false) (wrote : ℓ.wrote = false)
    (within : ∀ usage ∈ convertedReports response, usage.Within) :
    Follows (serving Application.WithinLimits safe) (fun _ _ => True)
      (SingletonService.refreshApplication response) ℓ := by
  rcases refreshApplication_spec response with ⟨-, traps | ⟨e, -, fails⟩⟩ | ⟨app, result, formed, -, files⟩
  · rw [traps]
    trivial
  · rw [fails]
    trivial
  · rw [files]
    obtain ⟨appKeys, appId, serviceId, reports, keys, appId_, serviceId_, reported, formed⟩ :=
      refreshedOf_eq_some formed
    have ids : CacheFilter.authResponseIds response = .ok (appKeys, appId, serviceId) := by
      simp only [CacheFilter.authResponseIds, keys, appId_, serviceId_]
    have kept := refreshedApplication_within ids reported formed within
    have inHand : InHand Application.WithinLimits ℓ app 0 :=
      Or.inr ⟨rfl, kept, dispatched, answered, wrote⟩
    exact follows_bind.mpr ((serving_setApplicationToCache inHand).mono fun _ _ _ => trivial)

theorem serving_updateApplicationCache {data : ThreescaleData} {reqTime : Duration} :
    Follows (serving first safe) (fun _ _ => True)
      (SingletonService.updateApplicationCache data reqTime) ℓ := by
  refine follows_bind.mpr ((serving_getApplicationFromCache _).mono ?_)
  intro ℓ₁ found fact
  obtain ⟨_, read⟩ := fact
  cases found with
  | error e => trivial
  | ok pair =>
    refine follows_bind.mpr ((serving_limitCheck (read _ _ rfl)).mono fun _ result _ => ?_)
    match result with
    | .ok _ | .error .durationOverflow | .error (.cacheUpdateFail _) => trivial

/-- What a callback is started with. It has read nothing yet. -/
def Callback.before : Callback → Progress
  | .callResponse f _ => { granted := some (lockKey f), dispatched := true }
  | .refreshResponse .. => { dispatched := true }
  | _ => {}

theorem Callback.before_reads (cb : Callback) : cb.before.reads = [] := by cases cb <;> rfl

theorem Callback.suits {f : CacheFilter} {response : CallResponse}
    (within : (Callback.callResponse f response).WithinLimits) :
    Suits Application.WithinLimits (fun _ => True) f response where
  maps := fun _ _ _ _ _ => trivial
  forms := by
    obtain ⟨status, body⟩ := response
    rintro a app ⟨answered, same, _⟩ formed
    dsimp only at answered same
    subst same
    refine rebuilt_within formed fun usage member => within usage ?_
    rw [Callback.handledReports, if_neg answered]
    exact member

theorem serving_handleRefresh {body : ResponseBody} {status : Str}
    (within : (Callback.refreshResponse body status).WithinLimits) :
    Follows (serving Application.WithinLimits safe) (fun _ _ => True)
      (SingletonService.handleAuthResponse body status) (Callback.refreshResponse body status).before := by
  unfold SingletonService.handleAuthResponse
  match body, within with
  | .notUtf8, _ | .unparsable, _ | .parsed (.error _), _ => trivial
  | .parsed (.status response), within =>
    dsimp only
    split
    · rename_i accepted
      refine serving_refreshApplication rfl rfl rfl fun usage member => within usage ?_
      rw [Callback.handledReports, if_pos (by simpa using accepted)]
      exact member
    · trivial

theorem serving_callback {cb : Callback} (within : cb.WithinLimits) :
    Follows (serving Application.WithinLimits fun _ => True) (fun _ _ => True) cb.program cb.before := by
  have finish : ∀ {α : Type} {p : HostProg α} {Q : Progress → α → Prop} {ℓ : Progress},
      Follows (serving Application.WithinLimits fun _ => True) Q p ℓ →
      Follows (serving Application.WithinLimits fun _ => True) (fun _ _ => True)
        (p >>= fun _ => .done ()) ℓ :=
    fun follows => follows_bind.mpr (follows.mono fun _ _ _ => trivial)
  cases cb with
  | requestHeaders lib rounds f headers =>
    exact finish (serving_onHttpRequestHeaders ⟨rfl, rfl, rfl, rfl⟩)
  | callResponse f response =>
    exact finish (serving_onHttpCallResponse ⟨rfl, rfl, rfl, rfl⟩ (Callback.suits within))
  | queueReady root queueId => exact serving_onQueueReady.mono fun _ _ _ => trivial
  | singletonUpdate data reqTime => exact finish serving_updateApplicationCache
  | refreshResponse body status =>
    exact finish (serving_handleRefresh within)

/-! All runs -/

/-- All applications that are stored, or have been read, are within their limits. -/
structure QuotaInv (h : Host) (progress : ι → Progress) : Prop where
  stored : QuotasKept h.shared
  read : ∀ i key app cas, (key, app, cas) ∈ (progress i).reads → app.WithinLimits

theorem InHand.withinLimits {app : Application} {cas : Nat}
    (inHand : InHand Application.WithinLimits ℓ app cas)
    (read : ∀ key app cas, (key, app, cas) ∈ ℓ.reads → app.WithinLimits) : app.WithinLimits := by
  rcases inHand with ⟨key, member⟩ | ⟨_, formed, _⟩
  · exact read key app cas member
  · exact formed

/-- A write of a serving party keeps the quotas. -/
theorem QuotasKept.exec {h : Host} {c : HostCall} (kept : QuotasKept h.shared)
    (read : ∀ key app cas, (key, app, cas) ∈ ℓ.reads → app.WithinLimits)
    (may : ServingCall Application.WithinLimits safe ℓ c) : QuotasKept (Host.exec c h).2.shared := by
  refine Host.exec_shared kept fun key value cas same => SharedData.Stored.put kept ?_
  intro app same
  subst same
  subst same
  obtain ⟨before, _, _, _, inHand, rfl | passes⟩ := may.application_inv
  · exact inHand.withinLimits read
  · exact passes.withinLimits (inHand.withinLimits read)

theorem quotas_preserved (guard) :
    Preserved (cacheParties ι Callback.WithinLimits) guard
      (fun _ => serving Application.WithinLimits fun _ => True) (fun _ _ _ => True)
      fun s => QuotaInv s.shared where
  call := by
    intro s progress i c k inv _ may _
    refine ⟨_, rfl, inv.stored.exec (inv.read i) may, fun j key app cas member => ?_⟩
    by_cases same : j = i
    · subst same
      rw [Function.update_self] at member
      rcases Progress.mem_reads_next member with old | read
      · exact inv.read j key app cas old
      · exact inv.stored key app cas (exec_read read)
    · rw [Function.update_of_ne same] at member
      exact inv.read j key app cas member
  resume := by
    intro s progress i _ p inv _ _ fact _
    obtain ⟨cb, within, rfl⟩ := fact
    refine ⟨cb.before, serving_callback within, inv.stored, fun j key app cas member => ?_⟩
    by_cases same : j = i
    · subst same
      rw [Function.update_self, Callback.before_reads] at member
      cases member
    · rw [Function.update_of_ne same] at member
      exact inv.read j key app cas member
  env := by
    intro s progress _ inv fact
    obtain ⟨clock, dispatch, rfl⟩ := fact
    exact ⟨inv.stored, inv.read⟩

/-- The `u64` subtraction of the conversion gives the difference of the numbers. -/
def ResponseUsage.Exact (usage : ResponseUsage) : Prop :=
  (usage.maxValue - usage.currentValue).toNat + usage.currentValue.toNat = usage.maxValue.toNat

theorem ResponseUsage.within_iff_exact {usage : ResponseUsage} : usage.Within ↔ usage.Exact := by
  unfold Within Exact
  rw [UInt64.le_iff_toNat_le]
  constructor
  · intro within
    rw [UInt64.toNat_sub_of_le _ _ (UInt64.le_iff_toNat_le.mpr within)]
    omega
  · intro exact_
    omega

/-- In a run that handles no report of more use than its maximum, which is to
say in which no subtraction wraps, all stored applications are within their limits. -/
theorem quotas_kept {h : Host} {s : Config ι HostCall HostCall.Reply Host Unit}
    (kept : QuotasKept h.shared)
    (reach : Reach (cacheParties ι Callback.WithinLimits) anyStep (idle ι h) s) :
    QuotasKept s.shared.shared ∧
      ∀ cb : Callback, cb.WithinLimits ↔ ∀ usage ∈ cb.handledReports, usage.Exact := by
  constructor
  · obtain ⟨_, inv, _⟩ := reach.invariant (quotas_preserved anyStep)
      ⟨fun _ => {}, ⟨kept, fun _ _ _ _ member => absurd member List.not_mem_nil⟩, fun _ => by trivial⟩
    exact inv.stored
  · exact fun cb => forall₂_congr fun usage _ => ResponseUsage.within_iff_exact

/-- A refresh that is answered with status 409. -/
def refusedRefresh (usage : ResponseUsage) : Callback :=
  .refreshResponse (.parsed (.status { reportedTwice [usage] with isAuthorized := false }))
    SingletonService.rateLimitStatus

/-- One thread that handles it, up to the write of the application. -/
def refreshed (usage : ResponseUsage) (admits : Callback → Prop) :
    Config Unit HostCall HostCall.Reply Host Unit :=
  ((idle Unit quietHost).resumed () (refusedRefresh usage).program).play (cacheParties Unit admits)
    [(), ()]

theorem refreshed_reach {usage : ResponseUsage} {admits : Callback → Prop}
    (admitted : admits (refusedRefresh usage)) :
    Reach (cacheParties Unit admits) anyStep (idle Unit quietHost) (refreshed usage admits) :=
  Reach.play _ (.next .start (.resume rfl ⟨_, admitted, rfl⟩) trivial)

theorem quotasKept_empty : QuotasKept SharedData.empty := by
  rintro _ _ _ ⟨⟩

/-- All of the limit used. -/
theorem quotas_kept_exhausted :
    QuotasKept (refreshed minuteUsage Callback.WithinLimits).shared.shared ∧
      ∀ cb : Callback, cb.WithinLimits ↔ ∀ usage ∈ cb.handledReports, usage.Exact := by
  have within : (refusedRefresh minuteUsage).WithinLimits := by
    intro usage member
    cases List.mem_singleton.mp member
    exact UInt64.le_refl 10
  exact quotas_kept quotasKept_empty (refreshed_reach within)

/-- One more than the limit used. -/
def overLimit : ResponseUsage := { minuteUsage with currentValue := 11 }

/-- The counter wraps. -/
theorem not_quotas_kept_overLimit :
    Reach (cacheParties Unit fun _ => True) anyStep (idle Unit quietHost)
      (refreshed overLimit fun _ => True) ∧
    QuotasKept quietHost.shared ∧ ¬QuotasKept (refreshed overLimit fun _ => True).shared.shared := by
  refine ⟨refreshed_reach trivial, quotasKept_empty, fun kept => ?_⟩
  have stored : ∃ key app cas report,
      (refreshed overLimit fun _ => True).shared.shared.entry key = some (some (.application app), cas) ∧
      app.localState.lookup "hits".toList = some report ∧ report.maxValue < report.leftHits :=
    ⟨"s_a".toList, _, _, _, rfl, rfl, by decide⟩
  obtain ⟨key, app, cas, report, entry, here, wrapped⟩ := stored
  exact UInt64.not_lt.mpr (kept key app cas entry _ report here) wrapped

end ThreescaleCache
