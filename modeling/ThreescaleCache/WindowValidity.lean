import ThreescaleCache.Ledger.Amount
import ThreescaleCache.LimitTurns
import ThreescaleCache.UsageLimits

namespace ThreescaleCache
open Interaction

/-! What the limit check does to the windows of the reports that it consults. -/

/-- The application as the loop leaves it. -/
def Verdict.Leaves : Verdict → Application → Prop
  | .pass app _, left => left = app
  | .limited app _, left => left = app
  | .overflow, _ => False
  | .trap, _ => False

section
variable {now : Duration} {before after metrics rest : List (Sigma fun _ : Str => UInt64)}
  {app app' app₁ : Application} {info info₁ : RateLimitInfo} {metric : Str} {hits : UInt64}

/-- One round of a loop that leaves an application: the metric is not limited,
or its report is renewed and stops the loop or is charged. -/
theorem limitCheck_cons_leaves
    (leaves : (limitCheck now (⟨metric, hits⟩ :: rest) app info).Leaves app') :
    (app.localState.lookup metric = none ∧ (limitCheck now rest app info).Leaves app') ∨
      ∃ found report, app.localState.lookup metric = some found ∧ found.renew now = some report ∧
        (app' = app.setReport metric report ∨
          ∃ info₁, (limitCheck now rest (app.setReport metric (report.charge hits)) info₁).Leaves app') := by
  unfold limitCheck at leaves
  split at leaves
  · exact Or.inl ⟨by assumption, leaves⟩
  · rename_i found here
    split at leaves
    · exact leaves.elim
    · rename_i report renewed
      refine Or.inr ⟨found, report, here, renewed, ?_⟩
      split at leaves
      · split at leaves
        · exact leaves.elim
        · exact Or.inl leaves
      · dsimp only at leaves
        split at leaves
        · split at leaves
          · exact leaves.elim
          · exact Or.inr ⟨_, leaves⟩
        · exact Or.inr ⟨_, leaves⟩

theorem Verdict.Leaves.untouched (leaves : (limitCheck now metrics app info).Leaves app')
    (outside : metric ∉ metrics.keys) : app'.localState.lookup metric = app.localState.lookup metric := by
  induction metrics generalizing app info with
  | nil =>
    unfold limitCheck at leaves
    rw [show app' = app from leaves]
  | cons entry rest ih =>
    obtain ⟨other, hits⟩ := entry
    simp only [List.keys_cons, List.mem_cons, not_or] at outside
    obtain ⟨different, outside⟩ := outside
    rcases limitCheck_cons_leaves leaves with ⟨_, later⟩ | ⟨found, report, _, _, rfl | ⟨info₁, later⟩⟩
    · exact ih later outside
    · exact Application.setReport_lookup_ne app report different
    · rw [ih later outside, Application.setReport_lookup_ne app _ different]

/-- The loop after some metrics that pass. -/
theorem limitCheck_append (pass : limitCheck now before app info = .pass app₁ info₁) :
    limitCheck now (before ++ after) app info = limitCheck now after app₁ info₁ := by
  induction before generalizing app info with
  | nil =>
    unfold limitCheck at pass
    cases pass
    rfl
  | cons entry rest ih =>
    obtain ⟨metric, hits⟩ := entry
    rw [List.cons_append]
    conv_lhs => unfold limitCheck
    unfold limitCheck at pass
    cases here : app.localState.lookup metric with
    | none =>
      simp only [here] at pass
      exact ih pass
    | some found =>
      cases renews : found.renew now with
      | none =>
        simp only [here, renews] at pass
        cases pass
      | some report =>
        simp only [here, renews] at pass ⊢
        split at pass
        · split at pass <;> cases pass
        · rename_i enough
          rw [if_neg enough]
          split at pass
          · rename_i least
            rw [if_pos least]
            split at pass
            · cases pass
            · exact ih pass
          · rename_i more
            rw [if_neg more]
            exact ih pass

/-- The loop comes to look the metric up: those before it have passed. -/
def Consulted (now : Duration) (metrics : List (Sigma fun _ : Str => UInt64)) (app : Application)
    (metric : Str) (hits : UInt64) : Prop :=
  ∃ before after app₁ info, metrics = before ++ ⟨metric, hits⟩ :: after ∧
    limitCheck now before app {} = .pass app₁ info

/-- A report that is consulted is left renewed, and charged if the loop went on. -/
theorem Consulted.left (consulted : Consulted now metrics app metric hits) (nodup : metrics.NodupKeys)
    (leaves : (limitCheck now metrics app {}).Leaves app') {found : UsageReport}
    (here : app.localState.lookup metric = some found) :
    ∃ report, found.renew now = some report ∧
      (app'.localState.lookup metric = some report ∨
        app'.localState.lookup metric = some (report.charge hits)) := by
  obtain ⟨before, after, app₁, info, rfl, pass⟩ := consulted
  obtain ⟨fresh, _⟩ := List.nodupKeys_cons.mp (List.nodupKeys_middle.mp nodup)
  have notBefore : metric ∉ before.keys := fun member => fresh (by
    simp only [List.keys, List.map_append, List.mem_append]
    exact Or.inl member)
  have notAfter : metric ∉ after.keys := fun member => fresh (by
    simp only [List.keys, List.map_append, List.mem_append]
    exact Or.inr member)
  have nodupBefore : before.NodupKeys := nodup.sublist (List.sublist_append_left _ _)
  have still := (limitCheck_pass_debits nodupBefore pass).untouched metric (Or.inl notBefore)
  rw [limitCheck_append pass] at leaves
  rcases limitCheck_cons_leaves leaves with ⟨absent, _⟩ | ⟨found', report, here', renews, left⟩
  · rw [still, here] at absent
    cases absent
  · rw [still, here] at here'
    cases Option.some.inj here'
    refine ⟨report, renews, ?_⟩
    rcases left with rfl | ⟨info₁, later⟩
    · exact Or.inl (Application.setReport_lookup app₁ metric report)
    · exact Or.inr ((later.untouched notAfter).trans (Application.setReport_lookup app₁ metric _))

/-- No report starts later than now, and what is limited for eternity is limited now. -/
def StartedBy (now : Duration) (app : Application) : Prop :=
  ∀ metric report, app.localState.lookup metric = some report →
    report.periodWindow.start ≤ now ∧
      (report.periodWindow.window = .eternity → now ≤ report.periodWindow.end)

/-- What the check is to do with the windows: it returns, with the windows that
it has consulted around the time, and hits are given back only in windows
that have moved. -/
structure WindowsHeld (now : Duration) (data : ThreescaleData) (app : Application) : Prop where
  noTrap : ∀ cas, limitCheckAndUpdateApplication data app cas now ≠ .trap
  noOverflow : ∀ cas t, ¬Prog.Path (limitCheckAndUpdateApplication data app cas now) t
    (.done (.error .durationOverflow))
  left : ∀ app', (limitCheck now data.metrics.entries app {}).Leaves app' →
    ∀ metric hits found, Consulted now data.metrics.entries app metric hits →
      app.localState.lookup metric = some found →
      ∃ report, app'.localState.lookup metric = some report ∧
        (report.periodWindow.window ≠ .eternity →
          report.periodWindow.start ≤ now ∧ now ≤ report.periodWindow.end) ∧
        (found.periodWindow.start < report.periodWindow.start ∨ report = found ∨
          report = found.charge hits)

theorem ready_of_reaches (started : StartedBy now app) (early : now.nanos < 2 ^ 63 * 10 ^ 9)
    (reaches : ∀ metric hits report, ⟨metric, hits⟩ ∈ metrics →
      app.localState.lookup metric = some report → report.Reaches now) : Ready now app metrics := by
  intro metric hits found member here
  obtain ⟨past, open_⟩ := started metric found here
  obtain ⟨renewed, renews, _, inside, _⟩ := UsageReport.renew_started past open_ early
  exact ⟨renewed, renews, inside.mpr (reaches metric hits found member here)⟩

/-- The program of the check traps or overflows only where the loop does. -/
theorem limitCheckAndUpdateApplication_decides {data : ThreescaleData} {status : RateLimitStatus}
    (decided : (limitCheck now data.metrics.entries app {}).decision = some status) (cas : Nat) :
    limitCheckAndUpdateApplication data app cas now ≠ .trap ∧
      ∀ t, ¬Prog.Path (limitCheckAndUpdateApplication data app cas now) t
        (.done (.error .durationOverflow)) := by
  unfold limitCheckAndUpdateApplication
  cases verdict : limitCheck now data.metrics.entries app {} with
  | overflow | trap =>
    rw [verdict] at decided
    cases decided
  | limited app' info =>
    refine ⟨by rintro ⟨⟩, fun t path => ?_⟩
    have same := (noteLimitCheck_done path).1
    cases same
  | pass app' info =>
    refine ⟨by rintro ⟨⟩, fun t path => ?_⟩
    obtain ⟨_, _, result, _, _, later⟩ := Prog.path_bind_done path
    cases result with
    | error e => cases (noteLimitCheck_done later).1
    | ok => cases (noteLimitCheck_done later).1

theorem windowsHeld_of_reaches {data : ThreescaleData} (started : StartedBy now app)
    (early : now.nanos < 2 ^ 63 * 10 ^ 9)
    (reaches : ∀ metric hits report, ⟨metric, hits⟩ ∈ data.metrics.entries →
      app.localState.lookup metric = some report → report.Reaches now) : WindowsHeld now data app := by
  have nodup := data.metrics.nodupKeys
  have decided := limitCheck_decision {} nodup (ready_of_reaches started early reaches)
  refine ⟨fun cas => (limitCheckAndUpdateApplication_decides decided cas).1,
    fun cas => (limitCheckAndUpdateApplication_decides decided cas).2, ?_⟩
  intro app' leaves metric hits found consulted here
  have member : ⟨metric, hits⟩ ∈ data.metrics.entries := by
    obtain ⟨before, after, _, _, split, _⟩ := consulted
    rw [split]
    exact List.mem_append_right _ List.mem_cons_self
  obtain ⟨past, always⟩ := started metric found here
  obtain ⟨renewed, renews, begun, inside, moved⟩ := UsageReport.renew_started past always early
  have open_ := inside.mpr (reaches metric hits found member here)
  obtain ⟨report, renews', left⟩ := consulted.left nodup leaves here
  cases Option.some.inj (renews.symm.trans renews')
  have later : renewed = found ∨ found.periodWindow.start < renewed.periodWindow.start := by
    refine moved.imp And.right fun fact => ?_
    obtain ⟨expired, moved⟩ := fact
    -- The window ended before now and has to reach it: it was moved.
    have reached := reaches metric hits found member here expired
    have past := expired.2
    have begins := moved.start
    rw [Duration.lt_iff] at past ⊢
    omega
  rcases left with left | left
  · refine ⟨renewed, left, fun _ => ⟨begun, open_⟩, ?_⟩
    exact later.elim (fun same => Or.inr (Or.inl same)) Or.inl
  · refine ⟨renewed.charge hits, left, fun _ => ⟨begun, open_⟩, ?_⟩
    exact later.elim (fun same => Or.inr (Or.inr (congrArg (·.charge hits) same))) Or.inl

/-- A window that still ends before now makes the loop trap, if it comes first. -/
theorem limitCheck_behind (hits : UInt64) (rest : List (Sigma fun _ : Str => UInt64))
    {found report : UsageReport} (here : app.localState.lookup metric = some found)
    (renews : found.renew now = some report) (behind : ¬now ≤ report.periodWindow.end) :
    limitCheck now (⟨metric, hits⟩ :: rest) app {} = .trap := by
  have none_ : report.periodWindow.end.checkedSub now = none := if_neg behind
  unfold limitCheck
  simp only [here, renews, none_, Option.all_none, if_true, ite_self]

/-- The windows are held whatever the order in which the metrics are iterated. -/
def HoldsWindows (now : Duration) (data : ThreescaleData) (app : Application) : Prop :=
  ∀ other : Metrics, other.entries.Perm data.metrics.entries →
    WindowsHeld now { data with metrics := other } app

/-- They are exactly if the window of every metric of the request reaches the
time by whole periods. -/
theorem holdsWindows_iff {data : ThreescaleData} (started : StartedBy now app)
    (early : now.nanos < 2 ^ 63 * 10 ^ 9) :
    HoldsWindows now data app ↔ ∀ metric hits report, ⟨metric, hits⟩ ∈ data.metrics.entries →
      app.localState.lookup metric = some report → report.Reaches now := by
  constructor
  · intro holds metric hits report member here
    by_contra short
    have requested : data.metrics.lookup metric = some hits := AList.mem_lookup_iff.mpr member
    have first : (data.metrics.insert metric hits).entries = ⟨metric, hits⟩ :: data.metrics.entries.kerase metric :=
      AList.entries_insert
    have held := holds (data.metrics.insert metric hits) (by
      rw [first]
      exact (Ledger.entries_perm requested).symm)
    obtain ⟨past, always⟩ := started metric report here
    obtain ⟨renewed, renews, _, inside, _⟩ := UsageReport.renew_started past always early
    have trap := limitCheck_behind hits (data.metrics.entries.kerase metric) here renews (mt inside.mp short)
    refine held.noTrap 0 ?_
    unfold limitCheckAndUpdateApplication
    rw [first, trap]
  · intro reaches other perm
    refine windowsHeld_of_reaches started early fun metric hits report member => ?_
    exact reaches metric hits report (perm.mem_iff.mp member)

end

/-! A limit of ten hits in a calendar month. A `Period::Month` has 30 days. -/

def monthReport (start stop : UInt64) : UsageReport where
  periodWindow := ⟨.fromSecs start, .fromSecs stop, .month⟩
  leftHits := 10
  maxValue := 10

def limitedToMonth (start stop : UInt64) : Application :=
  cachedWith ((∅ : HashMap UsageReport).insert "hits".toList (monthReport start stop))

theorem limitedToMonth_lookup {start stop : UInt64} {metric : Str} {report : UsageReport}
    (here : (limitedToMonth start stop).localState.lookup metric = some report) :
    report = monthReport start stop := by
  by_cases same : metric = "hits".toList
  · subst same
    rw [limitedToMonth, cachedWith, AList.lookup_insert] at here
    exact (Option.some.inj here).symm
  · rw [limitedToMonth, cachedWith, AList.lookup_insert_ne same] at here
    cases here

theorem limitedToMonth_startedBy {start stop : UInt64} {now : Duration} (past : .fromSecs start ≤ now) :
    StartedBy now (limitedToMonth start stop) := by
  intro metric report here
  cases limitedToMonth_lookup here
  exact ⟨past, by rintro ⟨⟩⟩

/-- The second after a January of 31 days. -/
theorem holdsWindows_january :
    HoldsWindows (.fromSecs 1612137601) oneHit (limitedToMonth 1609459200 1612137600) := by
  refine (holdsWindows_iff (limitedToMonth_startedBy (by decide)) (by decide)).mpr ?_
  intro metric hits report _ here
  cases limitedToMonth_lookup here
  exact UsageReport.reaches_of_length (by decide) (by decide)

/-- The second after a February of 28 days. -/
theorem not_holdsWindows_february :
    StartedBy (.fromSecs 1614556801) (limitedToMonth 1612137600 1614556800) ∧
      ¬HoldsWindows (.fromSecs 1614556801) oneHit (limitedToMonth 1612137600 1614556800) := by
  refine ⟨limitedToMonth_startedBy (by decide), fun holds => ?_⟩
  exact (holds oneHit.metrics (.refl _)).noTrap 0 (by rfl)

end ThreescaleCache
