import ThreescaleCache.ExactCheck
import ThreescaleCache.Ledger.Allowance
import ThreescaleCache.RefusedRefresh

namespace ThreescaleCache
open Interaction

/-! The hits that a limit gives away over a run of limit checks. -/

/-- The application under `key` after a call, if it was `app` before. -/
def storedAfter (key : Str) (app : Application) : HostEvent → Application
  | ⟨.setSharedData k (some (.application stored)) _, .ok ()⟩ => if k = key then stored else app
  | _ => app

def lastStored (key : Str) (app : Application) (t : List HostEvent) : Application :=
  t.foldl (storedAfter key) app

/-- The hits on a metric that a check lets pass. -/
def authorizedHits (metric : Str) (data : ThreescaleData) :
    HostProg (Except UpdateMetricsError RateLimitStatus) → Nat
  | .done (.ok (.authorized _)) => ((data.metrics.lookup metric).getD 0).toNat
  | _ => 0

/-- One check after the other, each made on the application as last stored, at
these times, with this number of hits authorized over all. -/
inductive Checks (metric : Str) : Application → List Duration → Nat → Application → Prop
  | start {app : Application} : Checks metric app [] 0 app
  | next {app app₁ : Application} {times : List Duration} {total cas : Nat} {data : ThreescaleData}
      {now : Duration} {t : List HostEvent} {q : HostProg (Except UpdateMetricsError RateLimitStatus)}
      (checks : Checks metric app times total app₁)
      (path : Prog.Path (limitCheckAndUpdateApplication data app₁ cas now) t q) :
      Checks metric app (times ++ [now]) (total + authorizedHits metric data q)
        (lastStored app₁.cacheKey.asString app₁ t)

/-- The call may write this application, and no other. -/
def WritesOnly (app : Application) (c : HostCall) : Prop :=
  ∀ key stored cas, c = .setSharedData key (some (.application stored)) cas → stored = app

section
variable {key metric : Str} {app app' : Application} {t : List HostEvent} {now : Duration}
  {data : ThreescaleData} {cas : Nat} {info : RateLimitInfo}

theorem storedAfter_cases (key : Str) (app : Application) (e : HostEvent) :
    storedAfter key app e = app ∨ ∃ stored cas,
      e = ⟨.setSharedData key (some (.application stored)) cas, .ok ()⟩ ∧ storedAfter key app e = stored := by
  unfold storedAfter
  split
  · rename_i k stored cas
    by_cases same : k = key
    · subst same
      exact Or.inr ⟨stored, cas, rfl, if_pos rfl⟩
    · exact Or.inl (if_neg same)
  · exact Or.inl rfl

theorem lastStored_of_writesOnly (only : ∀ e ∈ t, WritesOnly app' e.1) :
    lastStored key app t = app ∨ lastStored key app t = app' := by
  induction t generalizing app with
  | nil => exact Or.inl rfl
  | cons e t ih =>
    have rest : ∀ e ∈ t, WritesOnly app' e.1 := fun e' member => only e' (List.mem_cons_of_mem _ member)
    rcases storedAfter_cases key app e with same | ⟨stored, cas, rfl, same⟩
    · rw [lastStored, List.foldl_cons, same]
      exact ih rest
    · cases only _ List.mem_cons_self key stored cas rfl
      rw [lastStored, List.foldl_cons, same]
      exact Or.inr ((ih rest).elim id id)

theorem lastStored_unchanged (unchanged : ∀ e ∈ t, ¬Changes e) : lastStored key app t = app := by
  induction t generalizing app with
  | nil => rfl
  | cons e t ih =>
    have rest : ∀ e ∈ t, ¬Changes e := fun e' member => unchanged e' (List.mem_cons_of_mem _ member)
    rcases storedAfter_cases key app e with same | ⟨stored, cas, rfl, _⟩
    · rw [lastStored, List.foldl_cons, same]
      exact ih rest
    · exact absurd trivial (unchanged _ List.mem_cons_self)

theorem lastStored_append (t t' : List HostEvent) :
    lastStored key app (t ++ t') = lastStored key (lastStored key app t) t' :=
  List.foldl_append

/-- The one write of an application is what is found later. -/
theorem lastStored_of_storesOnce (stores : StoresOnce key app' cas t) : lastStored key app t = app' := by
  obtain ⟨before, after, rfl, unchanged, counted⟩ := stores
  have only : ∀ e ∈ after, WritesOnly app' e.1 := by
    intro e member key stored cas same
    rcases counted e member with counter | ⟨result, ghost⟩
    · rw [same] at counter
      cases counter
    · rw [same] at ghost
      cases ghost
  have here : storedAfter key app ⟨.setSharedData key (some (.application app')) (some cas), .ok ()⟩ = app' :=
    if_pos rfl
  rw [lastStored_append, lastStored_unchanged unchanged, lastStored, List.foldl_cons, here]
  exact (lastStored_of_writesOnly only).elim id id

theorem writesOnly_sideCall {c : HostCall} (side : SideCall c) : WritesOnly app c := by
  rintro key stored cas rfl
  cases side

theorem only_check_writesOnly (pass : limitCheck now data.metrics.entries app {} = .pass app' info) :
    (limitCheckAndUpdateApplication data app cas now).Only (WritesOnly app') := by
  simp only [limitCheckAndUpdateApplication, pass]
  have filing : (setApplicationToCache app'.cacheKey.asString app' cas).Only (WritesOnly app') := by
    refine Prog.only_bind ((only_getCachePairSize _).mono fun _ => writesOnly_sideCall) fun size => ?_
    cases size with
    | error e => trivial
    | ok previous =>
      refine ⟨?_, fun reply => ?_⟩
      · rintro key stored cas same
        cases same
        rfl
      · cases reply with
        | error e => trivial
        | ok =>
          show Prog.Only (WritesOnly app') (retryUpdateSharedMemorySize _ 3 >>= _)
          exact Prog.only_bind ((only_retryUpdateSharedMemorySize _ 3).mono fun _ => writesOnly_sideCall)
            fun _ => trivial
  refine Prog.only_bind filing fun set => ?_
  have notes : ∀ result, (noteLimitCheck result).Only (WritesOnly app') := by
    intro result
    refine ⟨?_, fun _ => trivial⟩
    rintro key stored cas ⟨⟩
  cases set with
  | ok => exact notes _
  | error e => exact notes _

theorem authorizedHits_eq_zero {q : HostProg (Except UpdateMetricsError RateLimitStatus)}
    (denied : ∀ info, q ≠ .done (.ok (.authorized info))) : authorizedHits metric data q = 0 := by
  unfold authorizedHits
  split
  · rename_i info
    exact absurd rfl (denied info)
  · rfl

/-- A check leaves what was stored and authorizes nothing, or the loop has
passed and what is stored is what it made of the application. -/
theorem check_outcome (metric : Str) {q : HostProg (Except UpdateMetricsError RateLimitStatus)}
    (path : Prog.Path (limitCheckAndUpdateApplication data app cas now) t q) :
    (lastStored app.cacheKey.asString app t = app ∧ authorizedHits metric data q = 0) ∨
      ∃ app' info, limitCheck now data.metrics.entries app {} = .pass app' info ∧
        lastStored app.cacheKey.asString app t = app' := by
  have silent : ∀ result, (∀ info, result ≠ .ok (.authorized info)) →
      Prog.Path (noteLimitCheck result) t q →
      lastStored app.cacheKey.asString app t = app ∧ authorizedHits metric data q = 0 := by
    intro result denied path
    have only : (noteLimitCheck result).Only fun c => c = .limitChecked result := ⟨rfl, fun _ => trivial⟩
    have unchanged : ∀ e ∈ t, ¬Changes e := by
      intro e member changes
      obtain ⟨c, r⟩ := e
      have same : c = .limitChecked result := only.path path _ member
      subst same
      exact changes
    refine ⟨lastStored_unchanged unchanged, authorizedHits_eq_zero ?_⟩
    rintro info rfl
    exact denied info (noteLimitCheck_done path).1.symm
  cases verdict : limitCheck now data.metrics.entries app {} with
  | trap =>
    simp only [limitCheckAndUpdateApplication, verdict] at path
    cases path
    exact Or.inl ⟨rfl, rfl⟩
  | overflow =>
    simp only [limitCheckAndUpdateApplication, verdict] at path
    refine Or.inl (silent (.error .durationOverflow) ?_ path)
    rintro info ⟨⟩
  | limited app' info =>
    simp only [limitCheckAndUpdateApplication, verdict] at path
    refine Or.inl (silent (.ok (.rateLimited info)) ?_ path)
    rintro info ⟨⟩
  | pass app' info =>
    by_cases authorized : ∃ info, q = .done (.ok (.authorized info))
    · obtain ⟨info', rfl⟩ := authorized
      rcases limitCheckAndUpdate_passed verdict path with ⟨_, stores⟩ | ⟨⟨e, failed⟩, _⟩
      · exact Or.inr ⟨app', info, rfl, lastStored_of_storesOnce stores⟩
      · cases failed
    · have nothing : authorizedHits metric data q = 0 :=
        authorizedHits_eq_zero fun info same => authorized ⟨info, same⟩
      rcases lastStored_of_writesOnly ((only_check_writesOnly verdict).path path) with kept | stored
      · exact Or.inl ⟨kept, nothing⟩
      · exact Or.inr ⟨app', info, rfl, stored⟩

theorem authorizedHits_le (metric : Str) (data : ThreescaleData)
    (q : HostProg (Except UpdateMetricsError RateLimitStatus)) :
    authorizedHits metric data q ≤ ((data.metrics.lookup metric).getD 0).toNat := by
  unfold authorizedHits
  split
  · exact Nat.le_refl _
  · exact Nat.zero_le _

end

/-- `report` is for the same limit as `first`, in the window `k` periods later. -/
structure PeriodsLater (first : UsageReport) (k : Nat) (report : UsageReport) : Prop where
  window : report.periodWindow.window = first.periodWindow.window
  maxValue : report.maxValue = first.maxValue
  start : report.periodWindow.start.nanos =
    first.periodWindow.start.nanos + k * first.periodWindow.window.nanos
  «end» : report.periodWindow.end.nanos =
    first.periodWindow.start.nanos + (k + 1) * first.periodWindow.window.nanos

/-- What a report allows, counted from the window that is `k` periods after the first. -/
def UsageReport.allowance (report : UsageReport) (k : Nat) : Ledger.Allowance := ⟨report.leftHits.toNat, k⟩

section
variable {metric : Str} {first report renewed : UsageReport} {k : Nat} {now : Duration} {hits : UInt64}

/-- A report that is renewed and charged takes the hits from its allowance, and
is filled up for a later window only. -/
theorem PeriodsLater.charged (later : PeriodsLater first k report) (renews : report.renew now = some renewed)
    (enough : hits ≤ renewed.leftHits) :
    ∃ k', PeriodsLater first k' (renewed.charge hits) ∧
      Ledger.Allowance.Takes first.maxValue.toNat hits.toNat (report.allowance k)
        ((renewed.charge hits).allowance k') ∧
      (k' = k ∨ k' ≤ (now.nanos - first.periodWindow.start.nanos) / first.periodWindow.window.nanos) := by
  have left : (renewed.charge hits).leftHits.toNat = renewed.leftHits.toNat - hits.toNat :=
    UInt64.toNat_sub_of_le _ _ enough
  rw [UInt64.le_iff_toNat_le] at enough
  rcases UsageReport.renew_inv renews with ⟨_, rfl⟩ | ⟨expired, started, moved⟩
  · refine ⟨k, ⟨later.window, later.maxValue, later.start, later.end⟩, ?_, Or.inl rfl⟩
    rw [UsageReport.allowance, UsageReport.allowance, left]
    exact .same enough
  · have width := later.window
    have begins := moved.start
    have ends := moved.end
    have whole := report.elapsed_mul_le now
    have next := report.lt_elapsed_succ_mul now
    have past := expired.2
    have startAt := later.start
    have endAt := later.end
    rw [width] at begins ends whole next
    rw [Duration.lt_iff] at past
    rw [Duration.le_iff] at started
    have total : (k + report.elapsed now) * first.periodWindow.window.nanos =
        k * first.periodWindow.window.nanos + report.elapsed now * first.periodWindow.window.nanos :=
      Nat.add_mul _ _ _
    have one : (k + 1) * first.periodWindow.window.nanos =
        k * first.periodWindow.window.nanos + first.periodWindow.window.nanos := Nat.succ_mul _ _
    have last : (k + report.elapsed now + 1) * first.periodWindow.window.nanos =
        (k + report.elapsed now) * first.periodWindow.window.nanos + first.periodWindow.window.nanos :=
      Nat.succ_mul _ _
    -- The window was as long as its period, so at least one of them is over.
    have forward : 0 < report.elapsed now := by
      rcases Nat.eq_zero_or_pos (report.elapsed now) with none_ | some_
      · rw [none_, Nat.zero_mul] at next
        omega
      · exact some_
    refine ⟨k + report.elapsed now, ⟨moved.window.trans width, moved.maxValue.trans later.maxValue, ?_, ?_⟩,
      ?_, Or.inr ?_⟩
    · show renewed.periodWindow.start.nanos = _
      omega
    · show renewed.periodWindow.end.nanos = _
      omega
    · rw [moved.leftHits, later.maxValue] at left enough
      rw [UsageReport.allowance, UsageReport.allowance, left]
      exact .later (by omega) enough
    · rw [Nat.le_div_iff_mul_le first.periodWindow.window.nanos_pos]
      omega

/-- One check takes at least the hits that it authorizes from the allowance of
the report. -/
theorem PeriodsLater.check {app : Application} {data : ThreescaleData} {cas : Nat} {t : List HostEvent}
    {q : HostProg (Except UpdateMetricsError RateLimitStatus)} (later : PeriodsLater first k report)
    (here : app.localState.lookup metric = some report)
    (path : Prog.Path (limitCheckAndUpdateApplication data app cas now) t q) :
    ∃ k' report' taken, (lastStored app.cacheKey.asString app t).localState.lookup metric = some report' ∧
      PeriodsLater first k' report' ∧
      Ledger.Allowance.Takes first.maxValue.toNat taken (report.allowance k) (report'.allowance k') ∧
      authorizedHits metric data q ≤ taken ∧
      (k' = k ∨ k' ≤ (now.nanos - first.periodWindow.start.nanos) / first.periodWindow.window.nanos) := by
  have nothing : Ledger.Allowance.Takes first.maxValue.toNat 0 (report.allowance k) (report.allowance k) :=
    .same (Nat.zero_le _)
  rcases check_outcome metric path with ⟨kept, denied⟩ | ⟨app', info, pass, stored⟩
  · rw [kept]
    exact ⟨k, report, 0, here, later, nothing, Nat.le_of_eq denied, Or.inl rfl⟩
  · have debits := limitCheck_pass_debits data.metrics.nodupKeys pass
    rw [stored]
    cases requested : data.metrics.lookup metric with
    | none =>
      have outside : metric ∉ data.metrics.entries.keys := AList.lookup_eq_none.mp requested
      have authorized := authorizedHits_le metric data q
      rw [requested] at authorized
      exact ⟨k, report, 0, (debits.untouched metric (Or.inl outside)).trans here, later, nothing, authorized,
        Or.inl rfl⟩
    | some hits =>
      obtain ⟨renewed, renews, enough, charged⟩ :=
        debits.charged metric hits report (AList.mem_lookup_iff.mp requested) here
      obtain ⟨k', later', takes, epoch⟩ := later.charged renews enough
      have authorized := authorizedHits_le metric data q
      rw [requested] at authorized
      exact ⟨k', renewed.charge hits, hits.toNat, charged, later', takes, authorized, epoch⟩

/-- A run of checks is one of the allowance, whose epochs are the windows that
some request has reached. -/
theorem Checks.allowance {app app' : Application} {times : List Duration} {total : Nat}
    (checks : Checks metric app times total app') (here : app.localState.lookup metric = some first)
    (length : first.periodWindow.end.nanos =
      first.periodWindow.start.nanos + first.periodWindow.window.nanos) :
    ∃ k report taken, app'.localState.lookup metric = some report ∧ PeriodsLater first k report ∧
      Applied (Ledger.Allowance.Takes first.maxValue.toNat) (first.allowance 0) taken (report.allowance k) ∧
      total ≤ (taken.map Prod.fst).sum ∧
      ∀ T : Duration, (∀ now ∈ times, now ≤ T) →
        k ≤ (T.nanos - first.periodWindow.start.nanos) / first.periodWindow.window.nanos := by
  induction checks with
  | start =>
    refine ⟨0, first, [], here, ⟨rfl, rfl, ?_, ?_⟩, .start, Nat.le_refl _, fun T _ => Nat.zero_le _⟩
    · rw [Nat.zero_mul, Nat.add_zero]
    · rw [Nat.zero_add, Nat.one_mul, length]
  | @next app₁ times total cas data now t q _ path ih =>
    obtain ⟨k, report, taken, here₁, later, applied, covered, reached⟩ := ih
    obtain ⟨k', report', hits, here', later', takes, authorized, epoch⟩ := later.check here₁ path
    refine ⟨k', report', _, here', later', .next applied takes, ?_, fun T latest => ?_⟩
    · rw [List.map_append, List.sum_append, List.map_singleton, List.sum_singleton]
      omega
    · have last : now ≤ T := latest now (List.mem_append_right _ List.mem_cons_self)
      rw [Duration.le_iff] at last
      rcases epoch with rfl | above
      · exact reached T fun time member => latest time (List.mem_append_left _ member)
      · exact above.trans (Nat.div_le_div_right (by omega))

/-- Over a run of checks, at any times and with any hits, no more hits are
authorized than were left at the start and the maximum for each period that has
gone by since, and the window is still on the grid of its periods. -/
theorem checks_bound {app app' : Application} {times : List Duration} {total : Nat} {T : Duration}
    (checks : Checks metric app times total app') (here : app.localState.lookup metric = some first)
    (length : first.periodWindow.end.nanos =
      first.periodWindow.start.nanos + first.periodWindow.window.nanos)
    (latest : ∀ now ∈ times, now ≤ T) :
    total ≤ first.leftHits.toNat + first.maxValue.toNat *
        ((T.nanos - first.periodWindow.start.nanos) / first.periodWindow.window.nanos) ∧
      ∃ k report, app'.localState.lookup metric = some report ∧ PeriodsLater first k report := by
  obtain ⟨k, report, taken, here', later, applied, covered, reached⟩ := checks.allowance here length
  refine ⟨?_, k, report, here', later⟩
  have bound : (taken.map Prod.fst).sum + report.leftHits.toNat + first.maxValue.toNat * 0 ≤
      first.leftHits.toNat + first.maxValue.toNat * k := Ledger.Allowance.taken_bound applied
  have periods := Nat.mul_le_mul_left first.maxValue.toNat (reached T latest)
  omega

end

/-- Ten hits a minute, none of them used. -/
def tenEachMinute : UsageReport := ⟨⟨.fromSecs 1000020, .fromSecs 1000080, .minute⟩, 10, 10⟩

def limitedToMinute : Application :=
  cachedWith ((∅ : HashMap UsageReport).insert "hits".toList tenEachMinute)

def fiveAtOnce : ThreescaleData := { oneHit with metrics := (∅ : Metrics).insert "hits".toList 5 }

/-- A request for five hits is checked and stored. -/
def fiveChecked (app : Application) (now : Duration) :
    Prog.Ran HostCall HostCall.Reply Host (Except UpdateMetricsError RateLimitStatus) :=
  (limitCheckAndUpdateApplication fiveAtOnce app 0 now).run Host.exec quietHost

def leftBy (app : Application) (now : Duration) : Application :=
  lastStored app.cacheKey.asString app (fiveChecked app now).trace

theorem checks_five {app app' : Application} {times : List Duration} {total : Nat}
    (checks : Checks "hits".toList app times total app') (now : Duration) :
    Checks "hits".toList app (times ++ [now])
      (total + authorizedHits "hits".toList fiveAtOnce (fiveChecked app' now).rest) (leftBy app' now) :=
  .next checks (Prog.run_path Host.exec _ quietHost)

/-- Two requests use up the first minute, and two the third one; in either minute
no more is authorized. -/
def minuteTimes : List Duration :=
  [.fromSecs 1000070, .fromSecs 1000078, .fromSecs 1000079, .fromSecs 1000141, .fromSecs 1000150,
    .fromSecs 1000151]

theorem checks_bound_thirdMinute : ∃ app', Checks "hits".toList limitedToMinute minuteTimes 20 app' ∧
    20 ≤ 10 + 10 * 2 := by
  have checks : Checks "hits".toList limitedToMinute minuteTimes _ _ :=
    checks_five (checks_five (checks_five (checks_five (checks_five (checks_five .start _) _) _) _) _) _
  have here : limitedToMinute.localState.lookup "hits".toList = some tenEachMinute :=
    AList.lookup_insert _
  have last : ∀ now ∈ minuteTimes, now ≤ .fromSecs 1000151 := by decide
  exact ⟨_, checks, (checks_bound checks here (by decide) last).1⟩

end ThreescaleCache
