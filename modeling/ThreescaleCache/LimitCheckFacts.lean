import ThreescaleCache.LimitCheck
import ThreescaleCache.Response

namespace ThreescaleCache

/-- A renewed report has the bounds it had; its counter is what it was, or
the maximum. -/
theorem UsageReport.renew_cases {report renewed : UsageReport} {now : Duration}
    (h : report.renew now = some renewed) :
    renewed = report ∨ ∃ start stop, renewed =
      { report with
        periodWindow := { report.periodWindow with start := start, «end» := stop }
        leftHits := report.maxValue } := by
  unfold UsageReport.renew at h
  dsimp only at h
  split at h
  · obtain ⟨diff, _, h⟩ := Option.bind_eq_some_iff.mp h
    obtain ⟨start, _, h⟩ := Option.bind_eq_some_iff.mp h
    obtain ⟨stop, _, h⟩ := Option.bind_eq_some_iff.mp h
    exact Or.inr ⟨start, stop, (Option.some.inj h).symm⟩
  · exact Or.inl (Option.some.inj h).symm

theorem UsageReport.renew_of_le {report : UsageReport} {now : Duration}
    (h : now ≤ report.periodWindow.end) : report.renew now = some report := by
  have open_ : ¬(report.periodWindow.window ≠ .eternity ∧ report.periodWindow.end < now) := by
    intro fact
    obtain ⟨_, expired⟩ := fact
    rw [Duration.le_iff] at h
    rw [Duration.lt_iff] at expired
    omega
  simp only [UsageReport.renew, if_neg open_]

theorem Application.setReport_lookup (app : Application) (metric : Str) (report : UsageReport) :
    (app.setReport metric report).localState.lookup metric = some report :=
  AList.lookup_insert app.localState

theorem Application.setReport_lookup_ne (app : Application) {metric other : Str}
    (report : UsageReport) (different : other ≠ metric) :
    (app.setReport metric report).localState.lookup other = app.localState.lookup other :=
  AList.lookup_insert_ne different

/-- A report after `hits` have been taken from it. -/
def UsageReport.charge (report : UsageReport) (hits : UInt64) : UsageReport :=
  { report with leftHits := report.leftHits - hits }

/-- One round of a loop that passes: the metric is not limited, or it is
renewed, has the hits left and is charged. -/
theorem limitCheck_cons_pass {now : Duration} {metric : Str} {hits : UInt64}
    {rest : List (Sigma fun _ : Str => UInt64)} {app app' : Application} {info info' : RateLimitInfo}
    (pass : limitCheck now (⟨metric, hits⟩ :: rest) app info = .pass app' info') :
    (app.localState.lookup metric = none ∧ limitCheck now rest app info = .pass app' info') ∨
      ∃ found report info₁, app.localState.lookup metric = some found ∧
        found.renew now = some report ∧ hits ≤ report.leftHits ∧
        limitCheck now rest (app.setReport metric (report.charge hits)) info₁ = .pass app' info' := by
  unfold limitCheck at pass
  split at pass
  · exact Or.inl ⟨by assumption, pass⟩
  · rename_i found here
    split at pass
    · cases pass
    · rename_i report renewed
      split at pass
      · split at pass <;> cases pass
      · rename_i enough
        have left : hits ≤ report.leftHits := UInt64.not_lt.mp enough
        dsimp only at pass
        split at pass
        · split at pass
          · cases pass
          · exact Or.inr ⟨found, report, _, here, renewed, left, pass⟩
        · exact Or.inr ⟨found, report, _, here, renewed, left, pass⟩

/-- `app'` is `app` after a request with these metrics at time `now`: every
limited metric of the request is renewed, has its hits left, and is charged
with them; nothing else changes. -/
structure Debits (now : Duration) (metrics : List (Sigma fun _ : Str => UInt64))
    (app app' : Application) : Prop where
  cacheKey : app'.cacheKey = app.cacheKey
  metricHierarchy : app'.metricHierarchy = app.metricHierarchy
  appKeys : app'.appKeys = app.appKeys
  charged : ∀ metric hits found, ⟨metric, hits⟩ ∈ metrics →
    app.localState.lookup metric = some found →
    ∃ report, found.renew now = some report ∧ hits ≤ report.leftHits ∧
      app'.localState.lookup metric = some (report.charge hits)
  untouched : ∀ metric, metric ∉ metrics.keys ∨ app.localState.lookup metric = none →
    app'.localState.lookup metric = app.localState.lookup metric

theorem limitCheck_pass_debits {now : Duration} {metrics : List (Sigma fun _ : Str => UInt64)}
    {app app' : Application} {info info' : RateLimitInfo} (nodup : metrics.NodupKeys)
    (pass : limitCheck now metrics app info = .pass app' info') : Debits now metrics app app' := by
  induction metrics generalizing app info with
  | nil =>
    unfold limitCheck at pass
    cases pass
    exact ⟨rfl, rfl, rfl, by simp, by simp⟩
  | cons entry rest ih =>
    obtain ⟨metric, hits⟩ := entry
    obtain ⟨fresh, nodupRest⟩ := List.nodupKeys_cons.mp nodup
    rcases limitCheck_cons_pass pass with ⟨absent, passRest⟩ |
      ⟨found, report, info₁, here, renewed, left, passRest⟩
    · have later := ih nodupRest passRest
      refine ⟨later.cacheKey, later.metricHierarchy, later.appKeys, ?_, ?_⟩
      · intro m h other member at_
        rcases List.mem_cons.mp member with same | old
        · cases same
          rw [absent] at at_
          cases at_
        · exact later.charged m h other old at_
      · intro m outside
        refine later.untouched m (outside.imp_left fun notIn => ?_)
        simp only [List.keys_cons, List.mem_cons, not_or] at notIn
        exact notIn.2
    · have later := ih nodupRest passRest
      have kept : app'.localState.lookup metric = some (report.charge hits) := by
        rw [later.untouched metric (Or.inl fresh), Application.setReport_lookup]
      refine ⟨later.cacheKey, later.metricHierarchy, later.appKeys, ?_, ?_⟩
      · intro m h other member at_
        rcases List.mem_cons.mp member with same | old
        · cases same
          cases Option.some.inj (here.symm.trans at_)
          exact ⟨report, renewed, left, kept⟩
        · have different : m ≠ metric := by
            intro same
            subst same
            have known := List.mem_keys_of_mem old
            exact fresh known
          refine later.charged m h other old ?_
          rw [Application.setReport_lookup_ne _ _ different, at_]
      · intro m outside
        have different : m ≠ metric := by
          intro same
          subst same
          rcases outside with notIn | absent
          · exact notIn List.mem_cons_self
          · rw [here] at absent
            cases absent
        rw [← Application.setReport_lookup_ne app (report.charge hits) different]
        refine later.untouched m (outside.imp (fun notIn => ?_) fun absent => ?_)
        · simp only [List.keys_cons, List.mem_cons, not_or] at notIn
          exact notIn.2
        · rw [Application.setReport_lookup_ne _ _ different, absent]

/-- The cache key is not changed by a limit check, however the map of metrics
is iterated. -/
theorem limitCheck_pass_cacheKey {now : Duration} {metrics : List (Sigma fun _ : Str => UInt64)}
    {app app' : Application} {info info' : RateLimitInfo}
    (pass : limitCheck now metrics app info = .pass app' info') : app'.cacheKey = app.cacheKey := by
  induction metrics generalizing app info with
  | nil =>
    unfold limitCheck at pass
    cases pass
    rfl
  | cons entry rest ih =>
    rcases limitCheck_cons_pass pass with ⟨_, passRest⟩ | ⟨_, _, _, _, _, _, passRest⟩
    · exact ih passRest
    · have later := ih passRest
      exact later

end ThreescaleCache
