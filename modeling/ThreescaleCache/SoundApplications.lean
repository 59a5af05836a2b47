import ThreescaleCache.ExactCheck
import ThreescaleCache.HierarchyExpansion
import ThreescaleCache.QuotaBound

namespace ThreescaleCache
open Interaction

/-! Applications on which the limit check cannot panic. `latest` is the last
time that requests are checked at, and `counted` tells of the metrics that
requests may count. -/

variable {latest : Duration} {counted : Str → Prop}

/-- The window is as long as its period, or is never over. -/
def UsageReport.Long (latest : Duration) (report : UsageReport) : Prop :=
  (report.periodWindow.window = .eternity → latest ≤ report.periodWindow.end) ∧
    (report.periodWindow.window ≠ .eternity →
      report.periodWindow.start.nanos + report.periodWindow.window.nanos ≤ report.periodWindow.end.nanos)

/-- No metric that a request may count is the child of another. -/
def Hierarchy.Spares (hierarchy : Hierarchy) (counted : Str → Prop) : Prop :=
  ∀ parent children, hierarchy.lookup parent = some children → ∀ child ∈ children, ¬counted child

/-- The request counts only such metrics. -/
def Metrics.Within (metrics : Metrics) (counted : Str → Prop) : Prop := ∀ metric ∈ metrics, counted metric

structure Application.Sound (latest : Duration) (counted : Str → Prop) (app : Application) : Prop where
  long : ∀ metric report, app.localState.lookup metric = some report → report.Long latest
  spares : app.metricHierarchy.Spares counted

theorem UsageReport.Long.renew {report renewed : UsageReport} {now : Duration} (long : report.Long latest)
    (renews : report.renew now = some renewed) : renewed.Long latest := by
  rcases UsageReport.renew_inv renews with ⟨_, rfl⟩ | ⟨expired, _, moved⟩
  · exact long
  · have begins := moved.start
    have ends := moved.end
    have wide := long.2 expired.1
    refine ⟨fun eternal => absurd (moved.window.symm.trans eternal) expired.1, fun _ => ?_⟩
    rw [moved.window]
    omega

/-- The renewal of a long window contains the time. -/
theorem UsageReport.Long.renews {report : UsageReport} {now : Duration} (long : report.Long latest)
    (due : now ≤ latest) (early : now.nanos < 2 ^ 63 * 10 ^ 9) :
    ∃ renewed, report.renew now = some renewed ∧ now ≤ renewed.periodWindow.end := by
  by_cases expired : report.Expired now
  · have wide := long.2 expired.1
    have past := Duration.lt_iff.mp expired.2
    have started : report.periodWindow.start ≤ now := Duration.le_iff.mpr (by omega)
    obtain ⟨renewed, renews, _, contains, _⟩ :=
      UsageReport.renew_started started (fun eternal => absurd eternal expired.1) early
    exact ⟨renewed, renews, contains.mpr (UsageReport.reaches_of_length started wide)⟩
  · refine ⟨report, UsageReport.renew_of_not_expired expired, ?_⟩
    by_cases eternal : report.periodWindow.window = .eternity
    · have end_ := long.1 eternal
      rw [Duration.le_iff] at due end_ ⊢
      omega
    · have open_ : ¬report.periodWindow.end < now := fun ended => expired ⟨eternal, ended⟩
      rw [Duration.lt_iff] at open_
      rw [Duration.le_iff]
      omega

namespace Application.Sound
variable {app app' : Application} {now : Duration} {data : ThreescaleData} {info : RateLimitInfo}

theorem ready (sound : app.Sound latest counted) (due : now ≤ latest) (early : latest.nanos < 2 ^ 63 * 10 ^ 9)
    (metrics : List (Sigma fun _ : Str => UInt64)) : Ready now app metrics := by
  intro metric hits found _ here
  rw [Duration.le_iff] at due
  exact (sound.long metric found here).renews (Duration.le_iff.mpr due) (by omega)

/-- A check that passes leaves a sound application. -/
theorem passes (sound : app.Sound latest counted)
    (pass : limitCheck now data.metrics.entries app {} = .pass app' info) : app'.Sound latest counted where
  long := by
    intro metric report here
    have debits := limitCheck_pass_debits data.metrics.nodupKeys pass
    cases requested : data.metrics.lookup metric with
    | none =>
      rw [debits.untouched metric (Or.inl (AList.lookup_eq_none.mp requested))] at here
      exact sound.long metric report here
    | some hits =>
      cases limited : app.localState.lookup metric with
      | none =>
        rw [debits.untouched metric (Or.inr limited)] at here
        exact sound.long metric report here
      | some found =>
        obtain ⟨renewed, renews, _, charged⟩ :=
          debits.charged metric hits found (AList.mem_lookup_iff.mp requested) limited
        cases charged.symm.trans here
        have window : renewed.Long latest := (sound.long metric found limited).renew renews
        exact window
  spares := by
    rw [(limitCheck_pass_debits data.metrics.nodupKeys pass).metricHierarchy]
    exact sound.spares

/-- The expansion of the hierarchy has nothing to do. -/
theorem expands (sound : app.Sound latest counted) {metrics : Metrics} (within : metrics.Within counted) :
    ∃ final, addHierarchyToMetrics app.metricHierarchy metrics = some final := by
  refine addHierarchyToMetrics_some_iff.mpr fun parent children member child below => ?_
  by_contra requested
  have counts : child ∈ metrics := AList.lookup_isSome.mp (Option.isSome_iff_ne_none.mpr requested)
  exact sound.spares parent children (AList.mem_lookup_iff.mpr member) child below (within child counts)

end Application.Sound

/-! The applications that are formed from responses -/

/-- The reports and the hierarchy of the response give a sound application. -/
structure AuthorizationStatus.Sound (latest : Duration) (counted : Str → Prop) (a : AuthorizationStatus) : Prop where
  long : ∀ usage ∈ a.usageReports.getD [], ∀ report, UsageReport.ofResponse usage = some report →
    report.Long latest
  spares : ∀ hierarchy ∈ a.hierarchy, hierarchy.Spares counted

/-- The loop that copies the hierarchy adds nothing. -/
theorem hierarchyOfResponse_lookup {hierarchy : Hierarchy} {parent : Str} {children : List Str}
    (here : (hierarchyOfResponse (some hierarchy)).lookup parent = some children) :
    hierarchy.lookup parent = some children := by
  have fold : ∀ (entries : List (Sigma fun _ : Str => List Str)) (h : Hierarchy),
      (entries.foldl (fun h entry => h.insert entry.1 entry.2) h).lookup parent = some children →
        h.lookup parent = some children ∨ ⟨parent, children⟩ ∈ entries := by
    intro entries
    induction entries with
    | nil => exact fun h here => Or.inl here
    | cons entry rest ih =>
      intro h here
      rcases ih _ here with before | later
      · by_cases same : parent = entry.1
        · subst same
          rw [AList.lookup_insert] at before
          cases before
          exact Or.inr List.mem_cons_self
        · rw [AList.lookup_insert_ne same] at before
          exact Or.inl before
      · exact Or.inr (List.mem_cons_of_mem _ later)
  rcases fold hierarchy.entries ∅ here with none_ | member
  · cases (AList.lookup_empty parent).symm.trans none_
  · exact AList.mem_lookup_iff.mpr member

theorem AuthorizationStatus.Sound.application {a : AuthorizationStatus} {app : Application}
    (sound : a.Sound latest counted)
    (state : localStateOfReports (a.usageReports.getD []) ∅ = some app.localState)
    (hierarchy : app.metricHierarchy = hierarchyOfResponse a.hierarchy) : app.Sound latest counted where
  long := by
    intro metric report here
    obtain ⟨usage, last, converted⟩ := localStateOfReports_some state here
    exact sound.long usage (lastReport_mem last).1 report converted
  spares := by
    intro parent children here
    rw [hierarchy] at here
    cases given : a.hierarchy with
    | none =>
      rw [given] at here
      cases (AList.lookup_empty parent).symm.trans here
    | some h =>
      rw [given] at here
      exact sound.spares h given parent children (hierarchyOfResponse_lookup here)

end ThreescaleCache
