import ThreescaleCache.ExactCheck

namespace ThreescaleCache
open Interaction

/-! The information for the RateLimit headers, over all orders of the metrics. -/

def RateLimitStatus.info : RateLimitStatus → RateLimitInfo
  | .authorized info => info
  | .rateLimited info => info

/-- A limited metric of the request, with its report as it is at the time: in a
new window if the one that is stored is over. -/
def Limits (now : Duration) (app : Application) (metrics : List (Sigma fun _ : Str => UInt64))
    (limit : Turn) : Prop :=
  ∃ metric found, ⟨metric, limit.hits⟩ ∈ metrics ∧ app.localState.lookup metric = some found ∧
    found.RenewedTo now limit.report

/-- None of the limited metrics has a smaller maximum. -/
def Strictest (now : Duration) (app : Application) (metrics : List (Sigma fun _ : Str => UInt64))
    (limit : Turn) : Prop :=
  Limits now app metrics limit ∧
    ∀ other, Limits now app metrics other → limit.report.maxValue ≤ other.report.maxValue

/-- The limits that the headers may be about agree on them: those that are
exhausted if there are some, and the strictest ones otherwise. -/
structure LimitsAgree (now : Duration) (app : Application)
    (metrics : List (Sigma fun _ : Str => UInt64)) : Prop where
  exhausted : ∀ a b, Limits now app metrics a → Limits now app metrics b → a.exhausted → b.exhausted →
    a.report.maxValue = b.report.maxValue ∧ a.reset now = b.reset now
  strictest : (¬∃ a, Limits now app metrics a ∧ a.exhausted) → ∀ a b, Strictest now app metrics a →
    Strictest now app metrics b →
      a.report.leftHits - a.hits = b.report.leftHits - b.hits ∧ a.reset now = b.reset now

/-- The information is a function of the request and the application. -/
structure InfoDetermined (now : Duration) (data : ThreescaleData) (app : Application) : Prop where
  unordered : ∀ (cas : Nat) (other other' : Metrics), other.entries.Perm data.metrics.entries →
    other'.entries.Perm data.metrics.entries → ∀ t t' status status',
      Prog.Path (limitCheckAndUpdateApplication { data with metrics := other } app cas now) t
        (.done (.ok status)) →
      Prog.Path (limitCheckAndUpdateApplication { data with metrics := other' } app cas now) t'
        (.done (.ok status')) → status.info = status'.info
  authorized : ∀ cas t info,
    Prog.Path (limitCheckAndUpdateApplication data app cas now) t (.done (.ok (.authorized info))) →
      ((¬∃ a, Limits now app data.metrics.entries a) ∧ info = {}) ∨
        ∃ a, Strictest now app data.metrics.entries a ∧ info.limit = some a.report.maxValue ∧
          info.remaining = some (a.report.leftHits - a.hits) ∧
          ∀ b, Strictest now app data.metrics.entries b →
            a.report.leftHits - a.hits ≤ b.report.leftHits - b.hits

section
variable {now : Duration} {app : Application} {metrics other : List (Sigma fun _ : Str => UInt64)}
  {data : ThreescaleData} {cas : Nat} {turn : Turn}

theorem limits_iff (ready : Ready now app metrics) :
    Limits now app metrics turn ↔ turn ∈ turns now app metrics := by
  unfold Limits turns
  rw [List.mem_filterMap]
  constructor
  · rintro ⟨metric, found, member, here, renewed⟩
    obtain ⟨report, renews, _⟩ := ready metric turn.hits found member here
    refine ⟨⟨metric, turn.hits⟩, member, ?_⟩
    simp only [turnOf, here, Option.bind_some, renews, Option.map_some,
      ← (UsageReport.renewedTo_iff renews).mp renewed]
  · rintro ⟨⟨metric, hits⟩, member, turned⟩
    obtain ⟨found, here, renewed⟩ := Option.bind_eq_some_iff.mp turned
    obtain ⟨report, renews, rfl⟩ := Option.map_eq_some_iff.mp renewed
    exact ⟨metric, found, member, here, (UsageReport.renewedTo_iff renews).mpr rfl⟩

theorem limits_perm (perm : other.Perm metrics) :
    Limits now app other turn ↔ Limits now app metrics turn := by
  unfold Limits
  simp only [perm.mem_iff]

/-- From the information of one turn the rest of a loop comes to that of a turn
with the least maximum. -/
theorem foldl_noted (now : Duration) (first : Turn) (rest : List Turn) :
    ∃ least ∈ first :: rest, rest.foldl (Turn.noted now) (first.chargedInfo now) = least.chargedInfo now ∧
      ∀ turn ∈ first :: rest, least.report.maxValue ≤ turn.report.maxValue := by
  induction rest generalizing first with
  | nil =>
    refine ⟨first, List.mem_cons_self, rfl, fun turn member => ?_⟩
    cases List.mem_singleton.mp member
    exact UInt64.le_refl _
  | cons next rest ih =>
    rw [List.foldl_cons]
    by_cases smaller : next.report.maxValue < first.report.maxValue
    · have noted : Turn.noted now (first.chargedInfo now) next = next.chargedInfo now :=
        if_pos (decide_eq_true smaller)
      rw [noted]
      obtain ⟨least, member, same, below⟩ := ih next
      refine ⟨least, List.mem_cons_of_mem _ member, same, fun turn here => ?_⟩
      rcases List.mem_cons.mp here with rfl | later
      · exact UInt64.le_trans (below next List.mem_cons_self) (UInt64.le_of_lt smaller)
      · exact below turn later
    · have noted : Turn.noted now (first.chargedInfo now) next = first.chargedInfo now :=
        if_neg fun fact => smaller (of_decide_eq_true fact)
      rw [noted]
      obtain ⟨least, member, same, below⟩ := ih first
      have front := below first List.mem_cons_self
      refine ⟨least, ?_, same, fun turn here => ?_⟩
      · rcases List.mem_cons.mp member with rfl | later
        · exact List.mem_cons_self
        · exact List.mem_cons_of_mem _ (List.mem_cons_of_mem _ later)
      · rcases List.mem_cons.mp here with rfl | later
        · exact front
        · rcases List.mem_cons.mp later with rfl | late
          · exact UInt64.le_trans front (UInt64.not_lt.mp smaller)
          · exact below turn (List.mem_cons_of_mem _ late)

/-- A turn with the least maximum that comes first gives the information. -/
theorem foldl_noted_first {first : Turn} {rest : List Turn}
    (least : ∀ turn ∈ rest, first.report.maxValue ≤ turn.report.maxValue) :
    rest.foldl (Turn.noted now) (first.chargedInfo now) = first.chargedInfo now := by
  induction rest with
  | nil => rfl
  | cons next rest ih =>
    have noted : Turn.noted now (first.chargedInfo now) next = first.chargedInfo now := by
      refine if_neg fun fact => ?_
      have smaller : next.report.maxValue < first.report.maxValue := of_decide_eq_true fact
      exact UInt64.not_lt.mpr (least next List.mem_cons_self) smaller
    rw [List.foldl_cons, noted]
    exact ih fun turn member => least turn (List.mem_cons_of_mem _ member)

/-- What the turns of a request come to: one that is exhausted decides, or one
with the least maximum gives the information. -/
theorem decisionFrom_cases (now : Duration) (l : List Turn) :
    (∃ a ∈ l, a.exhausted ∧ decisionFrom now l {} = .rateLimited (a.exhaustedInfo now)) ∨
      ((∀ a ∈ l, ¬a.exhausted) ∧ ((l = [] ∧ decisionFrom now l {} = .authorized {}) ∨
        ∃ a ∈ l, (∀ b ∈ l, a.report.maxValue ≤ b.report.maxValue) ∧
          decisionFrom now l {} = .authorized (a.chargedInfo now))) := by
  cases first : l.find? Turn.exhausted with
  | some a =>
    refine Or.inl ⟨a, List.mem_of_find?_eq_some first, List.find?_some first, ?_⟩
    simp only [decisionFrom, first]
  | none =>
    refine Or.inr ⟨List.find?_eq_none.mp first, ?_⟩
    cases l with
    | nil => exact Or.inl ⟨rfl, rfl⟩
    | cons turn rest =>
      obtain ⟨least, member, same, below⟩ := foldl_noted now turn rest
      refine Or.inr ⟨least, member, below, ?_⟩
      simp only [decisionFrom, first, List.foldl_cons, ← same]
      rfl

/-- A check that returns a status returns the decision of its turns. -/
theorem check_status (ready : Ready now app data.metrics.entries) {t : List HostEvent}
    {status : RateLimitStatus}
    (path : Prog.Path (limitCheckAndUpdateApplication data app cas now) t (.done (.ok status))) :
    status = decisionFrom now (turns now app data.metrics.entries) {} := by
  have decided := limitCheck_decision {} data.metrics.nodupKeys ready
  unfold limitCheckAndUpdateApplication at path
  cases verdict : limitCheck now data.metrics.entries app {} with
  | overflow | trap =>
    rw [verdict] at decided
    cases decided
  | limited app' info =>
    rw [verdict] at decided path
    have same := (noteLimitCheck_done path).1
    cases same
    exact Option.some.inj decided
  | pass app' info =>
    rw [verdict] at decided path
    obtain ⟨_, _, set, _, _, later⟩ := Prog.path_bind_done path
    cases set with
    | error e => cases (noteLimitCheck_done later).1
    | ok =>
      cases (noteLimitCheck_done later).1
      exact Option.some.inj decided

/-- Some check does. -/
theorem check_returns_status (data : ThreescaleData) (ready : Ready now app data.metrics.entries) (cas : Nat) :
    ∃ t, Prog.Path (limitCheckAndUpdateApplication data app cas now) t
      (.done (.ok (decisionFrom now (turns now app data.metrics.entries) {}))) := by
  have decided := limitCheck_decision {} data.metrics.nodupKeys ready
  cases verdict : limitCheck now data.metrics.entries app {} with
  | overflow | trap =>
    rw [verdict] at decided
    cases decided
  | limited app' info =>
    rw [verdict] at decided
    rw [← Option.some.inj decided, limitCheckAndUpdateApplication, verdict]
    exact ⟨[⟨.limitChecked (.ok (.rateLimited info)), ()⟩], .next .start⟩
  | pass app' info =>
    rw [verdict] at decided
    rw [← Option.some.inj decided]
    exact limitCheckAndUpdate_authorizes verdict cas

/-- Any limited metric can be the first one. -/
theorem Limits.front (ready : Ready now app data.metrics.entries)
    (limits : Limits now app data.metrics.entries turn) :
    ∃ other : Metrics, other.entries.Perm data.metrics.entries ∧
      ∃ rest, turns now app other.entries = turn :: rest := by
  obtain ⟨metric, found, member, here, renewed⟩ := limits
  obtain ⟨report, renews, _⟩ := ready metric turn.hits found member here
  cases (UsageReport.renewedTo_iff renews).mp renewed
  have requested : data.metrics.lookup metric = some turn.hits := AList.mem_lookup_iff.mpr member
  have first : (data.metrics.insert metric turn.hits).entries =
      ⟨metric, turn.hits⟩ :: data.metrics.entries.kerase metric := AList.entries_insert
  refine ⟨data.metrics.insert metric turn.hits, ?_, turns now app (data.metrics.entries.kerase metric), ?_⟩
  · rw [first]
    exact (Ledger.entries_perm requested).symm
  · rw [first, turns_cons here renews]

/-- Two orders of the metrics lead to the same information. -/
theorem InfoDetermined.decisions (determined : InfoDetermined now data app)
    (ready : Ready now app data.metrics.entries) {other other' : Metrics}
    (perm : other.entries.Perm data.metrics.entries) (perm' : other'.entries.Perm data.metrics.entries) :
    (decisionFrom now (turns now app other.entries) {}).info =
      (decisionFrom now (turns now app other'.entries) {}).info := by
  obtain ⟨t, path⟩ := check_returns_status { data with metrics := other } (ready.perm perm) 0
  obtain ⟨t', path'⟩ := check_returns_status { data with metrics := other' } (ready.perm perm') 0
  exact determined.unordered 0 other other' perm perm' t t' _ _ path path'

theorem limitsAgree_of_determined (ready : Ready now app data.metrics.entries)
    (determined : InfoDetermined now data app) : LimitsAgree now app data.metrics.entries := by
  constructor
  · intro a b limitsA limitsB shortA shortB
    obtain ⟨other, perm, rest, turnsA⟩ := limitsA.front ready
    obtain ⟨other', perm', rest', turnsB⟩ := limitsB.front ready
    have same := determined.decisions ready perm perm'
    rw [turnsA, turnsB, decisionFrom, decisionFrom, List.find?_cons_of_pos shortA,
      List.find?_cons_of_pos shortB] at same
    have infos : a.exhaustedInfo now = b.exhaustedInfo now := same
    refine ⟨Option.some.inj (congrArg RateLimitInfo.limit infos), ?_⟩
    exact Option.some.inj (congrArg RateLimitInfo.reset infos)
  · intro enough a b strictA strictB
    have charged : ∀ c, Strictest now app data.metrics.entries c → ∃ other : Metrics,
        other.entries.Perm data.metrics.entries ∧
          (decisionFrom now (turns now app other.entries) {}).info = c.chargedInfo now := by
      intro c strict
      obtain ⟨other, perm, rest, turnsC⟩ := strict.1.front ready
      have members : ∀ turn ∈ c :: rest, Limits now app data.metrics.entries turn := by
        intro turn member
        rw [← turnsC] at member
        exact (limits_perm perm).mp ((limits_iff (ready.perm perm)).mpr member)
      have none_ : (c :: rest).find? Turn.exhausted = none := List.find?_eq_none.mpr fun turn member short =>
        enough ⟨turn, members turn member, short⟩
      refine ⟨other, perm, ?_⟩
      rw [turnsC, decisionFrom, none_]
      exact foldl_noted_first fun turn member => strict.2 turn (members turn (List.mem_cons_of_mem _ member))
    obtain ⟨other, perm, infoA⟩ := charged a strictA
    obtain ⟨other', perm', infoB⟩ := charged b strictB
    have infos : a.chargedInfo now = b.chargedInfo now :=
      infoA.symm.trans ((determined.decisions ready perm perm').trans infoB)
    refine ⟨Option.some.inj (congrArg RateLimitInfo.remaining infos), ?_⟩
    exact Option.some.inj (congrArg RateLimitInfo.reset infos)

/-- What a check returns is about a limit that the headers may be about. -/
theorem decision_of_limits (ready : Ready now app metrics) :
    (∃ a, Limits now app metrics a ∧ a.exhausted ∧
        decisionFrom now (turns now app metrics) {} = .rateLimited (a.exhaustedInfo now)) ∨
      ((¬∃ a, Limits now app metrics a ∧ a.exhausted) ∧
        (((¬∃ a, Limits now app metrics a) ∧ decisionFrom now (turns now app metrics) {} = .authorized {}) ∨
          ∃ a, Strictest now app metrics a ∧
            decisionFrom now (turns now app metrics) {} = .authorized (a.chargedInfo now))) := by
  simp only [Strictest, limits_iff ready]
  rcases decisionFrom_cases now (turns now app metrics) with
    ⟨a, member, short, decided⟩ | ⟨enough, ⟨empty, decided⟩ | ⟨a, member, least, decided⟩⟩
  · exact Or.inl ⟨a, member, short, decided⟩
  · refine Or.inr ⟨fun fact => ?_, Or.inl ⟨fun fact => ?_, decided⟩⟩
    · obtain ⟨a, member, short⟩ := fact
      exact enough a member short
    · obtain ⟨a, member⟩ := fact
      rw [empty] at member
      cases member
  · refine Or.inr ⟨fun fact => ?_, Or.inr ⟨a, ⟨member, least⟩, decided⟩⟩
    obtain ⟨b, here, short⟩ := fact
    exact enough b here short

theorem strictest_perm (perm : other.Perm metrics) :
    Strictest now app other turn ↔ Strictest now app metrics turn := by
  simp only [Strictest, limits_perm perm]

/-- Where the limits agree, so do two strictest ones on all of the information. -/
theorem LimitsAgree.chargedInfo (agree : LimitsAgree now app metrics)
    (enough : ¬∃ a, Limits now app metrics a ∧ a.exhausted) {a b : Turn}
    (strictA : Strictest now app metrics a) (strictB : Strictest now app metrics b) :
    a.chargedInfo now = b.chargedInfo now := by
  obtain ⟨left, reset⟩ := agree.strictest enough a b strictA strictB
  have most : a.report.maxValue = b.report.maxValue :=
    UInt64.le_antisymm (strictA.2 b strictB.1) (strictB.2 a strictA.1)
  rw [Turn.chargedInfo, Turn.chargedInfo, most, left, reset]

theorem LimitsAgree.decisions (agree : LimitsAgree now app data.metrics.entries)
    (ready : Ready now app data.metrics.entries) {other other' : Metrics}
    (perm : other.entries.Perm data.metrics.entries) (perm' : other'.entries.Perm data.metrics.entries) :
    (decisionFrom now (turns now app other.entries) {}).info =
      (decisionFrom now (turns now app other'.entries) {}).info := by
  have first := decision_of_limits (ready.perm perm)
  have second := decision_of_limits (ready.perm perm')
  simp only [limits_perm perm, strictest_perm perm] at first
  simp only [limits_perm perm', strictest_perm perm'] at second
  rcases first with ⟨a, limitsA, shortA, decidedA⟩ | ⟨enough, ⟨free, decidedA⟩ | ⟨a, strictA, decidedA⟩⟩
  · rcases second with ⟨b, limitsB, shortB, decidedB⟩ | ⟨enough, _⟩
    · obtain ⟨most, reset⟩ := agree.exhausted a b limitsA limitsB shortA shortB
      rw [decidedA, decidedB]
      show a.exhaustedInfo now = b.exhaustedInfo now
      rw [Turn.exhaustedInfo, Turn.exhaustedInfo, most, reset]
    · exact absurd ⟨a, limitsA, shortA⟩ enough
  · rcases second with ⟨b, limitsB, _, _⟩ | ⟨_, ⟨_, decidedB⟩ | ⟨b, strictB, _⟩⟩
    · exact absurd ⟨b, limitsB⟩ free
    · rw [decidedA, decidedB]
    · exact absurd ⟨b, strictB.1⟩ free
  · rcases second with ⟨b, limitsB, shortB, _⟩ | ⟨_, ⟨free, _⟩ | ⟨b, strictB, decidedB⟩⟩
    · exact absurd ⟨b, limitsB, shortB⟩ enough
    · exact absurd ⟨a, strictA.1⟩ free
    · rw [decidedA, decidedB]
      exact agree.chargedInfo enough strictA strictB

theorem determined_of_limitsAgree (ready : Ready now app data.metrics.entries)
    (agree : LimitsAgree now app data.metrics.entries) : InfoDetermined now data app := by
  constructor
  · intro cas other other' perm perm' t t' status status' path path'
    have decided := check_status (ready.perm perm) path
    have decided' := check_status (ready.perm perm') path'
    rw [decided, decided']
    exact agree.decisions ready perm perm'
  · intro cas t info path
    have decided := check_status ready path
    rcases decision_of_limits ready with ⟨a, _, _, same⟩ | ⟨enough, ⟨free, same⟩ | ⟨a, strict, same⟩⟩
    · cases decided.trans same
    · cases decided.trans same
      exact Or.inl ⟨free, rfl⟩
    · cases decided.trans same
      refine Or.inr ⟨a, strict, rfl, rfl, fun b strictB => ?_⟩
      rw [(agree.strictest enough a b strict strictB).1]
      exact UInt64.le_refl _

/-- The information depends on the order of the metrics unless the limits that
the headers may be about agree on it. -/
theorem infoDetermined_iff (ready : Ready now app data.metrics.entries) :
    InfoDetermined now data app ↔ LimitsAgree now app data.metrics.entries :=
  ⟨limitsAgree_of_determined ready, determined_of_limitsAgree ready⟩

end

/-! Two limits of ten hits in the same minute -/

def tenAMinute (leftHits : UInt64) : UsageReport :=
  ⟨⟨.fromSecs 1000020, .fromSecs 1000080, .minute⟩, leftHits, 10⟩

/-- One of the limits is unused. -/
def tied (searchLeft : UInt64) : Application :=
  cachedWith (((∅ : HashMap UsageReport).insert "search".toList (tenAMinute searchLeft)).insert "hits".toList
    (tenAMinute 10))

def oneHitOnBoth : ThreescaleData :=
  { oneHit with metrics := ((∅ : Metrics).insert "search".toList 1).insert "hits".toList 1 }

theorem ready_tied (searchLeft : UInt64) : Ready insideBoth (tied searchLeft) oneHitOnBoth.metrics.entries := by
  intro metric hits found member here
  have report : found = tenAMinute 10 ∨ found = tenAMinute searchLeft := by
    rcases List.mem_cons.mp member with first | later
    · cases first
      exact Or.inl (Option.some.inj here).symm
    · cases List.mem_singleton.mp later
      exact Or.inr (Option.some.inj here).symm
  have inside : insideBoth ≤ found.periodWindow.end := by
    rcases report with rfl | rfl
    · decide
    · exact (by decide : insideBoth ≤ .fromSecs 1000080)
  exact ⟨found, UsageReport.renew_of_le inside, inside⟩

theorem limits_tied (searchLeft : UInt64) (a : Turn) :
    Limits insideBoth (tied searchLeft) oneHitOnBoth.metrics.entries a ↔
      a = ⟨tenAMinute 10, 1⟩ ∨ a = ⟨tenAMinute searchLeft, 1⟩ := by
  have both : turns insideBoth (tied searchLeft) oneHitOnBoth.metrics.entries =
      [⟨tenAMinute 10, 1⟩, ⟨tenAMinute searchLeft, 1⟩] := rfl
  rw [limits_iff (ready_tied searchLeft), both, List.mem_cons, List.mem_singleton]

/-- Two limits of which the same is left agree. -/
theorem infoDetermined_tied : InfoDetermined insideBoth oneHitOnBoth (tied 10) := by
  have alike : ∀ a, Limits insideBoth (tied 10) oneHitOnBoth.metrics.entries a → a = ⟨tenAMinute 10, 1⟩ :=
    fun a limits => or_self_iff.mp ((limits_tied 10 a).mp limits)
  refine (infoDetermined_iff (ready_tied 10)).mpr ⟨?_, ?_⟩
  · intro a b limitsA limitsB _ _
    rw [alike a limitsA, alike b limitsB]
    exact ⟨rfl, rfl⟩
  · intro _ a b strictA strictB
    rw [alike a strictA.1, alike b strictB.1]
    exact ⟨rfl, rfl⟩

/-- With one of them half used, the metric that comes first decides whether nine
or four hits remain. -/
theorem not_infoDetermined_tied :
    Ready insideBoth (tied 5) oneHitOnBoth.metrics.entries ∧ ¬InfoDetermined insideBoth oneHitOnBoth (tied 5) := by
  refine ⟨ready_tied 5, fun determined => ?_⟩
  have agree := limitsAgree_of_determined (ready_tied 5) determined
  have limits := limits_tied 5
  have strict : ∀ a, Limits insideBoth (tied 5) oneHitOnBoth.metrics.entries a →
      Strictest insideBoth (tied 5) oneHitOnBoth.metrics.entries a := by
    intro a here
    refine ⟨here, fun b there => ?_⟩
    rcases (limits a).mp here with rfl | rfl
    · rcases (limits b).mp there with rfl | rfl <;> exact UInt64.le_refl 10
    · rcases (limits b).mp there with rfl | rfl <;> exact UInt64.le_refl 10
  have enough : ¬∃ a, Limits insideBoth (tied 5) oneHitOnBoth.metrics.entries a ∧ a.exhausted := by
    rintro ⟨a, here, short⟩
    rcases (limits a).mp here with rfl | rfl
    · exact absurd short (by decide)
    · exact absurd short (by decide)
  have left := (agree.strictest enough _ _ (strict _ ((limits _).mpr (Or.inl rfl)))
    (strict _ ((limits _).mpr (Or.inr rfl)))).1
  exact absurd left (by decide)

end ThreescaleCache
