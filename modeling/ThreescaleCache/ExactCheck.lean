import ThreescaleCache.Filing
import ThreescaleCache.WindowValidity

namespace ThreescaleCache
open Interaction

/-! The limit check against the simultaneous check of all metrics. -/

/-- The windows that a request looks at have started and are as long as their
periods. -/
def LongWindows (now : Duration) (app : Application) (metrics : List (Sigma fun _ : Str => UInt64)) : Prop :=
  ∀ metric hits report, ⟨metric, hits⟩ ∈ metrics → app.localState.lookup metric = some report →
    report.periodWindow.start ≤ now ∧
      (report.periodWindow.window = .eternity → now ≤ report.periodWindow.end) ∧
      (report.periodWindow.window ≠ .eternity →
        report.periodWindow.start.nanos + report.periodWindow.window.nanos ≤ report.periodWindow.end.nanos)

/-- Some metric of the request has not the hits left that are asked for, with
all windows renewed that are over. -/
def Exceeds (now : Duration) (app : Application) (metrics : List (Sigma fun _ : Str => UInt64)) : Prop :=
  ∃ metric hits found report, ⟨metric, hits⟩ ∈ metrics ∧ app.localState.lookup metric = some found ∧
    found.renew now = some report ∧ report.leftHits < hits

/-- Two applications with the same contents; their maps may be iterated in
different orders. -/
structure Application.SameContents (app other : Application) : Prop where
  cacheKey : other.cacheKey = app.cacheKey
  metricHierarchy : other.metricHierarchy = app.metricHierarchy
  appKeys : other.appKeys = app.appKeys
  localState : ∀ metric, other.localState.lookup metric = app.localState.lookup metric

section
variable {now : Duration} {app app' : Application} {metrics other : List (Sigma fun _ : Str => UInt64)}
  {data : ThreescaleData} {cas : Nat}

theorem LongWindows.perm (long : LongWindows now app metrics) (perm : other.Perm metrics) :
    LongWindows now app other :=
  fun metric hits report member => long metric hits report (perm.mem_iff.mp member)

theorem LongWindows.renews (long : LongWindows now app metrics) (early : now.nanos < 2 ^ 62 * 10 ^ 9)
    {metric : Str} {hits : UInt64} {found : UsageReport} (member : ⟨metric, hits⟩ ∈ metrics)
    (here : app.localState.lookup metric = some found) :
    ∃ report, found.renew now = some report ∧ report.periodWindow.start ≤ now ∧
      now ≤ report.periodWindow.end ∧ found.RenewedTo now report := by
  obtain ⟨started, always, length⟩ := long metric hits found member here
  obtain ⟨report, renews, begun, inside, moved⟩ := UsageReport.renew_started started always (by omega)
  refine ⟨report, renews, begun, inside.mpr ?_, moved⟩
  intro expired
  exact UsageReport.reaches_of_length started (length expired.1) expired

theorem LongWindows.ready (long : LongWindows now app metrics) (early : now.nanos < 2 ^ 62 * 10 ^ 9) :
    Ready now app metrics := by
  intro metric hits found member here
  obtain ⟨report, renews, _, inside, _⟩ := long.renews early member here
  exact ⟨report, renews, inside⟩

theorem exceeds_perm (perm : other.Perm metrics) : Exceeds now app other ↔ Exceeds now app metrics := by
  unfold Exceeds
  simp only [perm.mem_iff]

/-- A request exceeds a limit when one of its turns is exhausted. -/
theorem exceeds_iff : Exceeds now app metrics ↔ ∃ turn ∈ turns now app metrics, turn.exhausted := by
  unfold Exceeds turns
  constructor
  · rintro ⟨metric, hits, found, report, member, here, renews, short⟩
    refine ⟨⟨report, hits⟩, List.mem_filterMap.mpr ⟨⟨metric, hits⟩, member, ?_⟩, decide_eq_true short⟩
    simp only [turnOf, here, Option.bind_some, renews, Option.map_some]
  · rintro ⟨turn, member, short⟩
    obtain ⟨⟨metric, hits⟩, requested, turned⟩ := List.mem_filterMap.mp member
    obtain ⟨found, here, renewed⟩ := Option.bind_eq_some_iff.mp turned
    obtain ⟨report, renews, rfl⟩ := Option.map_eq_some_iff.mp renewed
    exact ⟨metric, hits, found, report, requested, here, renews, of_decide_eq_true short⟩

/-- The loop stops exactly on the requests that exceed a limit. -/
theorem limitCheck_of_ready (nodup : metrics.NodupKeys) (ready : Ready now app metrics) :
    (Exceeds now app metrics → ∃ app' info, limitCheck now metrics app {} = .limited app' info) ∧
      (¬Exceeds now app metrics → ∃ app' info, limitCheck now metrics app {} = .pass app' info) := by
  have decided := limitCheck_decision {} nodup ready
  rw [exceeds_iff]
  cases first : (turns now app metrics).find? Turn.exhausted with
  | some turn =>
    have exhausted : ∃ turn ∈ turns now app metrics, turn.exhausted :=
      ⟨turn, List.mem_of_find?_eq_some first, List.find?_some first⟩
    refine ⟨fun _ => ?_, fun none_ => absurd exhausted none_⟩
    simp only [decisionFrom, first] at decided
    cases verdict : limitCheck now metrics app {} with
    | limited app' info => exact ⟨app', info, rfl⟩
    | pass | overflow | trap =>
      rw [verdict] at decided
      cases decided
  | none =>
    have enough : ¬∃ turn ∈ turns now app metrics, turn.exhausted := by
      rintro ⟨turn, member, exhausted⟩
      exact List.find?_eq_none.mp first turn member exhausted
    refine ⟨fun some_ => absurd some_ enough, fun _ => ?_⟩
    simp only [decisionFrom, first] at decided
    cases verdict : limitCheck now metrics app {} with
    | pass app' info => exact ⟨app', info, rfl⟩
    | limited | overflow | trap =>
      rw [verdict] at decided
      cases decided

/-- The contents of the debited application are those of any order of the metrics. -/
theorem Debits.sameContents {app₁ app₂ : Application} (debits : Debits now metrics app app₁)
    (perm : other.Perm metrics) (debits' : Debits now other app app₂) : app₁.SameContents app₂ where
  cacheKey := debits'.cacheKey.trans debits.cacheKey.symm
  metricHierarchy := debits'.metricHierarchy.trans debits.metricHierarchy.symm
  appKeys := debits'.appKeys.trans debits.appKeys.symm
  localState := by
    intro metric
    have keys : metric ∈ other.keys ↔ metric ∈ metrics.keys := (perm.map _).mem_iff
    by_cases outside : metric ∉ metrics.keys ∨ app.localState.lookup metric = none
    · rw [debits.untouched metric outside, debits'.untouched metric (by rwa [keys])]
    · obtain ⟨requested, limited⟩ := not_or.mp outside
      obtain ⟨hits, member⟩ := List.exists_of_mem_keys (not_not.mp requested)
      obtain ⟨found, here⟩ := Option.ne_none_iff_exists'.mp limited
      obtain ⟨report, renews, _, charged⟩ := debits.charged metric hits found member here
      obtain ⟨report', renews', _, charged'⟩ :=
        debits'.charged metric hits found (perm.mem_iff.mpr member) here
      cases Option.some.inj (renews.symm.trans renews')
      exact charged'.trans charged.symm

/-- A check that passes stores the debited application, or changes nothing. -/
theorem limitCheckAndUpdate_passed {info : RateLimitInfo} {t : List HostEvent}
    {result : Except UpdateMetricsError RateLimitStatus}
    (pass : limitCheck now data.metrics.entries app {} = .pass app' info)
    (path : Prog.Path (limitCheckAndUpdateApplication data app cas now) t (.done result)) :
    ((∃ info, result = .ok (.authorized info)) ∧ StoresOnce app.cacheKey.asString app' cas t) ∨
      ((∃ e, result = .error (.cacheUpdateFail e)) ∧ ∀ e ∈ t, ¬Changes e) := by
  simp only [limitCheckAndUpdateApplication, pass, limitCheck_pass_cacheKey pass] at path
  obtain ⟨t₁, t₂, set, rfl, filed, noted⟩ := Prog.path_bind_done path
  rcases setApplicationToCache_done filed with ⟨rfl, r, counts, rfl, counted⟩ | ⟨⟨e, rfl⟩, unchanged⟩
  · obtain ⟨rfl, rfl⟩ := noteLimitCheck_done noted
    refine Or.inl ⟨⟨info, rfl⟩, [⟨.getSharedData app.cacheKey.asString, r⟩], _, rfl, ?_, ?_⟩
    · intro e member
      cases List.mem_singleton.mp member
      exact id
    · intro e member
      rcases List.mem_append.mp member with counting | last
      · exact Or.inl (counted e counting)
      · cases List.mem_singleton.mp last
        exact Or.inr ⟨_, rfl⟩
  · obtain ⟨rfl, rfl⟩ := noteLimitCheck_done noted
    refine Or.inr ⟨⟨e, rfl⟩, fun e member => ?_⟩
    rcases List.mem_append.mp member with early | last
    · exact unchanged e early
    · cases List.mem_singleton.mp last
      exact id

theorem returns_limitCheckAndUpdate {status : RateLimitStatus}
    (decided : (limitCheck now data.metrics.entries app {}).decision = some status) :
    (limitCheckAndUpdateApplication data app cas now).Returns HeldByVec := by
  unfold limitCheckAndUpdateApplication
  cases verdict : limitCheck now data.metrics.entries app {} with
  | overflow | trap =>
    rw [verdict] at decided
    cases decided
  | limited app' info => exact fun _ _ => trivial
  | pass app' info =>
    refine Prog.returns_bind returns_setApplicationToCache fun set => ?_
    cases set with
    | ok => exact fun _ _ => trivial
    | error e => exact fun _ _ => trivial

def IsRateLimited (result : Except UpdateMetricsError RateLimitStatus) : Prop :=
  ∃ info, result = .ok (.rateLimited info)

/-- The limit check is exact, and all or nothing: a request that exceeds no limit
debits all its metrics in the one write of the application, and any other is
refused without a write. What it does is the same for every order of the metrics. -/
structure ExactCheck (now : Duration) (data : ThreescaleData) (app : Application) (cas : Nat) : Prop where
  renewed : ∀ metric hits found, ⟨metric, hits⟩ ∈ data.metrics.entries →
    app.localState.lookup metric = some found →
    ∃ report, found.renew now = some report ∧ found.RenewedTo now report
  returns : (limitCheckAndUpdateApplication data app cas now).Returns HeldByVec
  refused : Exceeds now app data.metrics.entries → ∀ t q,
    Prog.Path (limitCheckAndUpdateApplication data app cas now) t q →
      (∀ e ∈ t, ∃ result, e.1 = .limitChecked result) ∧ ∀ result, q = .done result → IsRateLimited result
  admitted : ¬Exceeds now app data.metrics.entries → ∃ app', Debits now data.metrics.entries app app' ∧
    ∀ t result, Prog.Path (limitCheckAndUpdateApplication data app cas now) t (.done result) →
      ((∃ info, result = .ok (.authorized info)) ∧ StoresOnce app.cacheKey.asString app' cas t) ∨
        ((∃ e, result = .error (.cacheUpdateFail e)) ∧ ∀ e ∈ t, ¬Changes e)
  unordered : ∀ other : Metrics, other.entries.Perm data.metrics.entries → ∀ t t' result result',
    Prog.Path (limitCheckAndUpdateApplication data app cas now) t (.done result) →
    Prog.Path (limitCheckAndUpdateApplication { data with metrics := other } app cas now) t' (.done result') →
      (IsRateLimited result ↔ IsRateLimited result') ∧ ∀ app₁ app₂,
        StoresOnce app.cacheKey.asString app₁ cas t → StoresOnce app.cacheKey.asString app₂ cas t' →
          app₁.SameContents app₂

/-- One order of the metrics: what is decided, and what is stored. -/
theorem limitCheckAndUpdate_decides (ready : Ready now app data.metrics.entries) {t : List HostEvent}
    {result : Except UpdateMetricsError RateLimitStatus}
    (path : Prog.Path (limitCheckAndUpdateApplication data app cas now) t (.done result)) :
    (IsRateLimited result ↔ Exceeds now app data.metrics.entries) ∧
      ∀ app', StoresOnce app.cacheKey.asString app' cas t → Debits now data.metrics.entries app app' := by
  have nodup := data.metrics.nodupKeys
  obtain ⟨limited, passes⟩ := limitCheck_of_ready nodup ready
  by_cases exceeds : Exceeds now app data.metrics.entries
  · obtain ⟨app', info, verdict⟩ := limited exceeds
    simp only [limitCheckAndUpdateApplication, verdict] at path
    obtain ⟨rfl, rfl⟩ := noteLimitCheck_done path
    refine ⟨⟨fun _ => exceeds, fun _ => ⟨info, rfl⟩⟩, fun app₁ stores => ?_⟩
    obtain ⟨e, member, changes⟩ := stores.changes
    cases List.mem_singleton.mp member
    exact changes.elim
  · obtain ⟨app', info, verdict⟩ := passes exceeds
    rcases limitCheckAndUpdate_passed verdict path with ⟨⟨info', rfl⟩, stores⟩ | ⟨⟨e, rfl⟩, unchanged⟩
    · refine ⟨iff_of_false ?_ exceeds, fun app₁ stores' => ?_⟩
      · rintro ⟨_, ⟨⟩⟩
      rw [stores'.unique stores]
      exact limitCheck_pass_debits nodup verdict
    · refine ⟨iff_of_false ?_ exceeds, fun app₁ stores => ?_⟩
      · rintro ⟨_, ⟨⟩⟩
      obtain ⟨e, member, changes⟩ := stores.changes
      exact absurd changes (unchanged e member)

/-- The loop is the simultaneous check of all metrics, for every order of them
and whatever shared data reply. -/
theorem limitCheck_exact (long : LongWindows now app data.metrics.entries)
    (early : now.nanos < 2 ^ 62 * 10 ^ 9) : ExactCheck now data app cas where
  renewed := by
    intro metric hits found member here
    obtain ⟨report, renews, _, _, moved⟩ := long.renews early member here
    exact ⟨report, renews, moved⟩
  returns := returns_limitCheckAndUpdate (limitCheck_decision {} data.metrics.nodupKeys (long.ready early))
  refused := by
    intro exceeds t q path
    obtain ⟨app', info, verdict⟩ := (limitCheck_of_ready data.metrics.nodupKeys (long.ready early)).1 exceeds
    have only : (limitCheckAndUpdateApplication data app cas now).Only
        fun c => ∃ result, c = .limitChecked result := by
      simp only [limitCheckAndUpdateApplication, verdict]
      exact ⟨⟨_, rfl⟩, fun _ => trivial⟩
    refine ⟨only.path path, ?_⟩
    rintro result rfl
    exact (limitCheckAndUpdate_decides (long.ready early) path).1.mpr exceeds
  admitted := by
    intro enough
    obtain ⟨app', info, verdict⟩ := (limitCheck_of_ready data.metrics.nodupKeys (long.ready early)).2 enough
    refine ⟨app', limitCheck_pass_debits data.metrics.nodupKeys verdict, fun t result path => ?_⟩
    exact limitCheckAndUpdate_passed verdict path
  unordered := by
    intro other perm t t' result result' path path'
    obtain ⟨decided, stored⟩ := limitCheckAndUpdate_decides (long.ready early) path
    obtain ⟨decided', stored'⟩ := limitCheckAndUpdate_decides ((long.perm perm).ready early) path'
    refine ⟨by rw [decided, decided', exceeds_perm perm], fun app₁ app₂ stores stores' => ?_⟩
    exact (stored app₁ stores).sameContents perm (stored' app₂ stores')

end

/-- The second after a January of 31 days. -/
theorem longWindows_january :
    LongWindows (.fromSecs 1612137601) (limitedToMonth 1609459200 1612137600) oneHit.metrics.entries := by
  intro metric hits report _ here
  cases limitedToMonth_lookup here
  refine ⟨by decide, ?_, fun _ => by decide⟩
  rintro ⟨⟩

/-- The ten hits of January are given back and one is taken. -/
theorem limitCheck_exact_january :
    ExactCheck (.fromSecs 1612137601) oneHit (limitedToMonth 1609459200 1612137600) 3 :=
  limitCheck_exact longWindows_january (by decide)

end ThreescaleCache
