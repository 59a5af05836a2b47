import ThreescaleCache.CacheHitRules
import ThreescaleCache.SingletonService

namespace ThreescaleCache
open Interaction

/-- The last report of a response for a metric. -/
def lastReport (metric : Str) (reports : List ResponseUsage) : Option ResponseUsage :=
  (reports.filter fun usage => usage.metric = metric).getLast?

theorem lastReport_cons (metric : Str) (usage : ResponseUsage) (rest : List ResponseUsage) :
    lastReport metric (usage :: rest) =
      (lastReport metric rest).or (if usage.metric = metric then some usage else none) := by
  by_cases same : usage.metric = metric
  · simp only [lastReport, same, decide_true, List.filter_cons_of_pos, List.getLast?_cons, if_true]
    cases (List.filter (fun usage => decide (usage.metric = metric)) rest).getLast? <;> rfl
  · simp only [lastReport, same, decide_false, Bool.false_eq_true, not_false_eq_true,
      List.filter_cons_of_neg, if_false, Option.or_none]

theorem lastReport_mem {metric : Str} {usage : ResponseUsage} {reports : List ResponseUsage}
    (last : lastReport metric reports = some usage) : usage ∈ reports ∧ usage.metric = metric := by
  have member := List.mem_of_getLast? last
  simpa using member

/-- The map that the loop over the reports builds: for each metric it holds
the last report alone. -/
theorem localStateOfReports_lookup {reports : List ResponseUsage} {state built : HashMap UsageReport}
    (run : localStateOfReports reports state = some built) (metric : Str) :
    built.lookup metric =
      match lastReport metric reports with
      | none => state.lookup metric
      | some usage => UsageReport.ofResponse usage := by
  induction reports generalizing state with
  | nil => cases Option.some.inj run; rfl
  | cons usage rest ih =>
    unfold localStateOfReports at run
    split at run
    · rename_i report converted
      rw [ih run, lastReport_cons]
      cases lastReport metric rest with
      | some later => rfl
      | none =>
        by_cases same : usage.metric = metric
        · subst same
          simp only [Option.none_or, if_true, converted]
          exact AList.lookup_insert state
        · simp only [Option.none_or, if_neg same]
          exact AList.lookup_insert_ne (Ne.symm same)
    · cases run

/-- The loop fails on the first report that does not convert. -/
theorem localStateOfReports_converts {reports : List ResponseUsage}
    {state built : HashMap UsageReport} (run : localStateOfReports reports state = some built)
    {usage : ResponseUsage} (member : usage ∈ reports) :
    ∃ report, UsageReport.ofResponse usage = some report := by
  induction reports generalizing state with
  | nil => cases member
  | cons first rest ih =>
    unfold localStateOfReports at run
    split at run
    · rename_i report converted
      rcases List.mem_cons.mp member with rfl | old
      · exact ⟨report, converted⟩
      · exact ih run old
    · cases run

/-- A metric's report comes from the last one in the response. -/
theorem localStateOfReports_some {reports : List ResponseUsage} {built : HashMap UsageReport}
    (run : localStateOfReports reports ∅ = some built) {metric : Str} {report : UsageReport}
    (here : built.lookup metric = some report) :
    ∃ usage, lastReport metric reports = some usage ∧ UsageReport.ofResponse usage = some report := by
  rw [localStateOfReports_lookup run metric] at here
  cases last : lastReport metric reports with
  | none =>
    rw [last] at here
    cases here
  | some usage =>
    rw [last] at here
    exact ⟨usage, rfl, here⟩

/-- The check of a single limited metric inside its window. -/
theorem limitCheck_single_limited {now : Duration} {metric : Str} {hits : UInt64}
    {app : Application} (open_ : ∀ report, app.localState.lookup metric = some report →
      now ≤ report.periodWindow.end) :
    (∃ app' info, limitCheck now [⟨metric, hits⟩] app {} = .limited app' info) ↔
      ∃ report, app.localState.lookup metric = some report ∧ report.leftHits < hits := by
  unfold limitCheck
  cases here : app.localState.lookup metric with
  | none => simp [limitCheck]
  | some report =>
    have inside := open_ report here
    obtain ⟨reset, subtracted, _⟩ := Duration.checkedSub_of_le inside
    simp only [UsageReport.renew_of_le inside, subtracted]
    by_cases exhausted : report.leftHits < hits
    · simp [exhausted]
    · simp [exhausted, limitCheck]

theorem noteLimitCheck_done {result answer : Except UpdateMetricsError RateLimitStatus}
    {t : List HostEvent} (path : Prog.Path (noteLimitCheck result) t (.done answer)) :
    answer = result ∧ t = [⟨.limitChecked result, ()⟩] := by
  cases path with
  | next rest => cases rest; exact ⟨rfl, rfl⟩

/-- A check that passes can come to authorize the request, whatever the CAS. -/
theorem limitCheckAndUpdate_authorizes {data : ThreescaleData} {app app' : Application} {now : Duration}
    {info : RateLimitInfo} (pass : limitCheck now data.metrics.entries app {} = .pass app' info) (cas : Nat) :
    ∃ t, Prog.Path (limitCheckAndUpdateApplication data app cas now) t (.done (.ok (.authorized info))) := by
  -- The counter of the memory is left alone after three failed reads.
  refine ⟨[⟨.getSharedData app'.cacheKey.asString, .ok (none, none)⟩,
    ⟨.setSharedData app'.cacheKey.asString (some (.application app')) (some cas), .ok ()⟩,
    ⟨.getSharedData sharedMemoryCounterKey, .error .notFound⟩,
    ⟨.getSharedData sharedMemoryCounterKey, .error .notFound⟩,
    ⟨.getSharedData sharedMemoryCounterKey, .error .notFound⟩,
    ⟨.limitChecked (.ok (.authorized info)), ()⟩], ?_⟩
  unfold limitCheckAndUpdateApplication
  rw [pass]
  exact .next (.next (.next (.next (.next (.next .start)))))

/-- Some execution of the limit check answers that the request is rate-limited. -/
def AnswersRateLimited (data : ThreescaleData) (app : Application) (appCas : Nat)
    (now : Duration) : Prop :=
  ∃ t info, Prog.Path (limitCheckAndUpdateApplication data app appCas now) t
    (.done (.ok (.rateLimited info)))

/-- That answer is given before the cache is touched: it is the verdict of
the loop, whatever the host replies. -/
theorem answersRateLimited_iff {data : ThreescaleData} {app : Application} {appCas : Nat}
    {now : Duration} : AnswersRateLimited data app appCas now ↔
      ∃ app' info, limitCheck now data.metrics.entries app {} = .limited app' info := by
  unfold AnswersRateLimited limitCheckAndUpdateApplication
  cases limitCheck now data.metrics.entries app {} with
  | trap =>
    simp only [reduceCtorEq, exists_false, iff_false]
    intro fact
    obtain ⟨t, info, path⟩ := fact
    cases path
  | overflow =>
    simp only [reduceCtorEq, exists_false, iff_false]
    intro fact
    obtain ⟨t, info, path⟩ := fact
    have same := (noteLimitCheck_done path).1
    cases same
  | limited app' info =>
    have answered : Prog.Path (noteLimitCheck (.ok (.rateLimited info)))
        [⟨.limitChecked (.ok (.rateLimited info)), ()⟩] (.done (.ok (.rateLimited info))) :=
      .next .start
    exact ⟨fun _ => ⟨app', info, rfl⟩, fun _ => ⟨_, info, answered⟩⟩
  | pass app' info' =>
    simp only [reduceCtorEq, exists_false, iff_false]
    intro fact
    obtain ⟨t, info, path⟩ := fact
    obtain ⟨_, _, result, _, _, later⟩ := Prog.path_bind_done path
    cases result with
    | error e => cases (noteLimitCheck_done later).1
    | ok => cases (noteLimitCheck_done later).1

/-- One execution that gives this answer is as good as all. -/
theorem AnswersRateLimited.always {data : ThreescaleData} {app : Application} {appCas : Nat}
    {now : Duration} (answers : AnswersRateLimited data app appCas now)
    {result : Except UpdateMetricsError RateLimitStatus} {t : List HostEvent}
    (path : Prog.Path (limitCheckAndUpdateApplication data app appCas now) t (.done result)) :
    ∃ info, result = .ok (.rateLimited info) := by
  obtain ⟨app', info, limited⟩ := answersRateLimited_iff.mp answers
  simp only [limitCheckAndUpdateApplication, limited] at path
  exact ⟨info, (noteLimitCheck_done path).1⟩

/-- The application that the filter or the singleton builds from a response. -/
def BuiltFrom (response : AuthorizationStatus) (app : Application) : Prop :=
  ∃ appKeys appId serviceId reports,
    CacheFilter.authResponseIds response = .ok (appKeys, appId, serviceId) ∧
    response.usageReports = some reports ∧
    (CacheFilter.authResponseApplication response appKeys appId serviceId = some app ∨
      SingletonService.refreshedApplication response reports appKeys appId serviceId = some app)

theorem BuiltFrom.localState {response : AuthorizationStatus} {app : Application}
    {reports : List ResponseUsage} (built : BuiltFrom response app)
    (reported : response.usageReports = some reports) :
    localStateOfReports reports ∅ = some app.localState := by
  obtain ⟨appKeys, appId, serviceId, reports', _, reported', filter | singleton⟩ := built
  · obtain ⟨state, run, same⟩ := Option.bind_eq_some_iff.mp filter
    cases Option.some.inj same
    simpa only [reported, Option.getD_some] using run
  · obtain ⟨state, run, same⟩ := Option.bind_eq_some_iff.mp singleton
    cases Option.some.inj same
    cases Option.some.inj (reported.symm.trans reported')
    exact run

/-- The window of a usage report of a response contains the time. -/
def WindowContains (now : Duration) (usage : ResponseUsage) : Prop :=
  ∀ report, UsageReport.ofResponse usage = some report →
    report.periodWindow.start ≤ now ∧ now ≤ report.periodWindow.end

def Exhausted (hits : UInt64) (usage : ResponseUsage) : Prop :=
  usage.maxValue.toNat - usage.currentValue.toNat < hits.toNat

theorem UsageReport.ofResponse_leftHits {usage : ResponseUsage} {report : UsageReport}
    (converted : UsageReport.ofResponse usage = some report) :
    report.leftHits = usage.maxValue - usage.currentValue ∧ report.maxValue = usage.maxValue := by
  unfold UsageReport.ofResponse at converted
  split at converted
  · cases Option.some.inj converted; exact ⟨rfl, rfl⟩
  · cases converted

/-- The check of a request with hits on one metric is decided by the last
report of the response for this metric. -/
theorem answersRateLimited_single {response : AuthorizationStatus} {reports : List ResponseUsage}
    {data : ThreescaleData} {app : Application} {metric : Str} {hits : UInt64} {now : Duration}
    (appCas : Nat) (reported : response.usageReports = some reports)
    (built : BuiltFrom response app) (within : ∀ usage ∈ reports, usage.currentValue ≤ usage.maxValue)
    (open_ : ∀ usage ∈ reports, WindowContains now usage)
    (request : data.metrics.entries = [⟨metric, hits⟩]) :
    AnswersRateLimited data app appCas now ↔
      ∃ usage, lastReport metric reports = some usage ∧ Exhausted hits usage := by
  have state := localStateOfReports_lookup (built.localState reported) metric
  cases last : lastReport metric reports with
  | none =>
    have absent : app.localState.lookup metric = none := by rw [state, last]; rfl
    rw [answersRateLimited_iff, request, limitCheck_single_limited (by simp [absent])]
    simp [absent]
  | some usage =>
    have member := (lastReport_mem last).1
    have here : app.localState.lookup metric = UsageReport.ofResponse usage := by rw [state, last]
    have opened : ∀ report, app.localState.lookup metric = some report →
        now ≤ report.periodWindow.end := fun report at_ =>
      (open_ usage member report (here.symm.trans at_)).2
    rw [answersRateLimited_iff, request, limitCheck_single_limited opened]
    have bound := within usage member
    have subtraction := UInt64.toNat_sub_of_le usage.maxValue usage.currentValue bound
    obtain ⟨report, converted⟩ := localStateOfReports_converts (built.localState reported) member
    have left := (UsageReport.ofResponse_leftHits converted).1
    simp only [here, converted, Option.some.injEq, exists_eq_left', Exhausted, left,
      UInt64.lt_iff_toNat_lt, subtraction]

/-- All limits that a response reports for a metric are enforced. -/
def EnforcesReports (data : ThreescaleData) (app : Application) (appCas : Nat) (now : Duration)
    (metric : Str) (hits : UInt64) (reports : List ResponseUsage) : Prop :=
  AnswersRateLimited data app appCas now ↔
    ∃ usage ∈ reports, usage.metric = metric ∧ Exhausted hits usage

/-- They are exactly when the last report for the metric is exhausted
whenever one of them is. -/
theorem enforcesReports_iff {response : AuthorizationStatus} {reports : List ResponseUsage}
    {data : ThreescaleData} {app : Application} {metric : Str} {hits : UInt64} {appCas : Nat}
    {now : Duration} (reported : response.usageReports = some reports)
    (built : BuiltFrom response app) (within : ∀ usage ∈ reports, usage.currentValue ≤ usage.maxValue)
    (open_ : ∀ usage ∈ reports, WindowContains now usage)
    (request : data.metrics.entries = [⟨metric, hits⟩]) :
    EnforcesReports data app appCas now metric hits reports ↔
      ((∃ usage ∈ reports, usage.metric = metric ∧ Exhausted hits usage) →
        ∃ usage, lastReport metric reports = some usage ∧ Exhausted hits usage) := by
  have answered := answersRateLimited_single appCas reported built within open_ request
  unfold EnforcesReports
  rw [answered]
  constructor
  · intro enforced some_
    exact enforced.mpr some_
  · intro last
    refine ⟨?_, last⟩
    intro fact
    obtain ⟨usage, at_, exhausted⟩ := fact
    obtain ⟨member, same⟩ := lastReport_mem at_
    exact ⟨usage, member, same, exhausted⟩

/-! A metric that is limited per minute and per day. The limit of the minute
is used up; the report of the day comes later. -/

def minuteUsage : ResponseUsage where
  metric := "hits".toList
  period := .minute
  periodStart := 1000020
  periodEnd := 1000080
  maxValue := 10
  currentValue := 10

def dayUsage : ResponseUsage where
  metric := "hits".toList
  period := .day
  periodStart := 950400
  periodEnd := 1036800
  maxValue := 100
  currentValue := 10

def reportedTwice (reports : List ResponseUsage) : AuthorizationStatus where
  isAuthorized := true
  reason := none
  usageReports := some reports
  hierarchy := none
  appKeys := some { serviceId := some ['s'], appId := some ['a'], keys := [] }

def insideBoth : Duration := .fromSecs 1000030

theorem WindowContains.of_report {usage : ResponseUsage} {now : Duration} (report : UsageReport)
    (converted : UsageReport.ofResponse usage = some report)
    (inside : report.periodWindow.start ≤ now ∧ now ≤ report.periodWindow.end) :
    WindowContains now usage := by
  intro report' converted'
  cases Option.some.inj (converted.symm.trans converted')
  exact inside

theorem insideBoth_minute : WindowContains insideBoth minuteUsage :=
  .of_report ⟨⟨.fromSecs 1000020, .fromSecs 1000080, .minute⟩, 0, 10⟩ (by decide) (by decide)

theorem insideBoth_day : WindowContains insideBoth dayUsage :=
  .of_report ⟨⟨.fromSecs 950400, .fromSecs 1036800, .day⟩, 90, 100⟩ (by decide) (by decide)

theorem builtFrom_reportedTwice {reports : List ResponseUsage} {state : HashMap UsageReport}
    (run : localStateOfReports reports ∅ = some state) :
    BuiltFrom (reportedTwice reports) (cachedWith state) := by
  refine ⟨_, ['a'], ['s'], reports, rfl, rfl, Or.inl ?_⟩
  simp only [CacheFilter.authResponseApplication, reportedTwice, Option.getD_some, run]
  rfl

/-- The day's report hides that of the minute. -/
theorem not_enforcesReports_minute_day : ∃ app,
    BuiltFrom (reportedTwice [minuteUsage, dayUsage]) app ∧
    (∀ usage ∈ [minuteUsage, dayUsage], usage.currentValue ≤ usage.maxValue) ∧
    (∀ usage ∈ [minuteUsage, dayUsage], WindowContains insideBoth usage) ∧
    oneHit.metrics.entries = [⟨"hits".toList, 1⟩] ∧
    ¬EnforcesReports oneHit app 1 insideBoth "hits".toList 1 [minuteUsage, dayUsage] := by
  obtain ⟨state, run⟩ := Option.isSome_iff_exists.mp
    (show (localStateOfReports [minuteUsage, dayUsage] ∅).isSome by decide)
  have built := builtFrom_reportedTwice run
  have within : ∀ usage ∈ [minuteUsage, dayUsage], usage.currentValue ≤ usage.maxValue := by decide
  have open_ : ∀ usage ∈ [minuteUsage, dayUsage], WindowContains insideBoth usage := by
    simp only [List.forall_mem_cons, List.not_mem_nil, false_imp_iff, implies_true, and_true]
    exact ⟨insideBoth_minute, insideBoth_day⟩
  have request : oneHit.metrics.entries = [⟨"hits".toList, 1⟩] := by decide
  refine ⟨cachedWith state, built, within, open_, request, fun enforced => ?_⟩
  have answered := (answersRateLimited_single 1 rfl built within open_ request).mp
    (enforced.mpr ⟨minuteUsage, by decide, rfl, by unfold Exhausted; decide⟩)
  obtain ⟨usage, last, exhausted⟩ := answered
  have same : lastReport "hits".toList [minuteUsage, dayUsage] = some dayUsage := by decide
  cases Option.some.inj (same.symm.trans last)
  revert exhausted
  unfold Exhausted
  decide

/-- In the other order the limit of the minute is kept. -/
theorem enforcesReports_day_minute : ∃ app,
    BuiltFrom (reportedTwice [dayUsage, minuteUsage]) app ∧
    (EnforcesReports oneHit app 1 insideBoth "hits".toList 1 [dayUsage, minuteUsage] ↔
      ((∃ usage ∈ [dayUsage, minuteUsage], usage.metric = "hits".toList ∧ Exhausted 1 usage) →
        ∃ usage, lastReport "hits".toList [dayUsage, minuteUsage] = some usage ∧
          Exhausted 1 usage)) := by
  obtain ⟨state, run⟩ := Option.isSome_iff_exists.mp
    (show (localStateOfReports [dayUsage, minuteUsage] ∅).isSome by decide)
  have built := builtFrom_reportedTwice run
  have open_ : ∀ usage ∈ [dayUsage, minuteUsage], WindowContains insideBoth usage := by
    simp only [List.forall_mem_cons, List.not_mem_nil, false_imp_iff, implies_true, and_true]
    exact ⟨insideBoth_day, insideBoth_minute⟩
  exact ⟨_, built, enforcesReports_iff rfl built (by decide) open_ (by decide)⟩

end ThreescaleCache
