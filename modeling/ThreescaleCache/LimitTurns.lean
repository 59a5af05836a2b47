import ThreescaleCache.Renewal

namespace ThreescaleCache

/-! The limit check as a question about all metrics of the request at once. -/

/-- A limited metric of a request when its turn comes: the report as it is
after the renewal, and the hits that are asked for. -/
structure Turn where
  report : UsageReport
  hits : UInt64

namespace Turn

def exhausted (turn : Turn) : Bool := turn.report.leftHits < turn.hits

/-- The seconds until the window ends. -/
def reset (now : Duration) (turn : Turn) : UInt64 :=
  .ofNat ((turn.report.periodWindow.end.nanos - now.nanos) / 10 ^ 9)

def exhaustedInfo (now : Duration) (turn : Turn) : RateLimitInfo where
  limit := some turn.report.maxValue
  remaining := some 0
  reset := some (turn.reset now)

def chargedInfo (now : Duration) (turn : Turn) : RateLimitInfo where
  limit := some turn.report.maxValue
  remaining := some (turn.report.leftHits - turn.hits)
  reset := some (turn.reset now)

/-- The information after a turn that is not exhausted. -/
def noted (now : Duration) (info : RateLimitInfo) (turn : Turn) : RateLimitInfo :=
  if info.limit.all fun limit => turn.report.maxValue < limit then turn.chargedInfo now else info

end Turn

def turnOf (now : Duration) (app : Application) (entry : Sigma fun _ : Str => UInt64) : Option Turn :=
  (app.localState.lookup entry.1).bind fun found => (found.renew now).map fun report => ⟨report, entry.2⟩

def turns (now : Duration) (app : Application) (metrics : List (Sigma fun _ : Str => UInt64)) : List Turn :=
  metrics.filterMap (turnOf now app)

/-- All windows that a request looks at contain the time once they are renewed. -/
def Ready (now : Duration) (app : Application) (metrics : List (Sigma fun _ : Str => UInt64)) : Prop :=
  ∀ metric hits found, ⟨metric, hits⟩ ∈ metrics → app.localState.lookup metric = some found →
    ∃ report, found.renew now = some report ∧ now ≤ report.periodWindow.end

/-- What a verdict makes the check return, if the write succeeds. -/
def Verdict.decision : Verdict → Option RateLimitStatus
  | .pass _ info => some (.authorized info)
  | .limited _ info => some (.rateLimited info)
  | .overflow => none
  | .trap => none

/-- The decision that the turns of a request lead to. -/
def decisionFrom (now : Duration) (turns : List Turn) (info : RateLimitInfo) : RateLimitStatus :=
  match turns.find? Turn.exhausted with
  | some turn => .rateLimited (turn.exhaustedInfo now)
  | none => .authorized (turns.foldl (Turn.noted now) info)

section
variable {now : Duration} {app : Application} {metric : Str} {hits : UInt64}
  {rest metrics : List (Sigma fun _ : Str => UInt64)} {info : RateLimitInfo}

theorem turns_cons_unlimited (absent : app.localState.lookup metric = none) :
    turns now app (⟨metric, hits⟩ :: rest) = turns now app rest := by
  have none_ : turnOf now app ⟨metric, hits⟩ = none := by
    simp only [turnOf, absent, Option.bind_none]
  exact List.filterMap_cons_none none_

theorem turns_cons {found report : UsageReport} (here : app.localState.lookup metric = some found)
    (renews : found.renew now = some report) :
    turns now app (⟨metric, hits⟩ :: rest) = ⟨report, hits⟩ :: turns now app rest := by
  have some_ : turnOf now app ⟨metric, hits⟩ = some ⟨report, hits⟩ := by
    simp only [turnOf, here, Option.bind_some, renews, Option.map_some]
  exact List.filterMap_cons_some some_

/-- The turns of the other metrics do not see what is filed for this one. -/
theorem turns_setReport (report : UsageReport) (fresh : metric ∉ rest.keys) :
    turns now (app.setReport metric report) rest = turns now app rest := by
  refine List.filterMap_congr fun entry member => ?_
  have different : entry.1 ≠ metric := by
    intro same
    rw [← same] at fresh
    exact fresh (List.mem_keys_of_mem member)
  simp only [turnOf, Application.setReport_lookup_ne _ _ different]

theorem Ready.tail {entry : Sigma fun _ : Str => UInt64} (ready : Ready now app (entry :: rest)) :
    Ready now app rest :=
  fun metric hits found member => ready metric hits found (List.mem_cons_of_mem _ member)

theorem Ready.setReport (ready : Ready now app rest) (report : UsageReport) (fresh : metric ∉ rest.keys) :
    Ready now (app.setReport metric report) rest := by
  intro m h found member here
  have different : m ≠ metric := by
    intro same
    rw [← same] at fresh
    exact fresh (List.mem_keys_of_mem member)
  rw [Application.setReport_lookup_ne _ _ different] at here
  exact ready m h found member here

theorem Ready.perm {other : List (Sigma fun _ : Str => UInt64)} (ready : Ready now app metrics)
    (perm : other.Perm metrics) : Ready now app other :=
  fun metric hits found member => ready metric hits found (perm.mem_iff.mp member)

/-- One round of the loop with a window that contains the time. -/
theorem limitCheck_cons_ready {found report : UsageReport}
    (here : app.localState.lookup metric = some found) (renews : found.renew now = some report)
    (open_ : now ≤ report.periodWindow.end) :
    limitCheck now (⟨metric, hits⟩ :: rest) app info =
      if Turn.exhausted ⟨report, hits⟩ then
        .limited (app.setReport metric report) (Turn.exhaustedInfo now ⟨report, hits⟩)
      else limitCheck now rest (app.setReport metric (report.charge hits))
        (Turn.noted now info ⟨report, hits⟩) := by
  obtain ⟨left, subtracted, difference⟩ := Duration.checkedSub_of_le open_
  have reset : left.asSecs = Turn.reset now ⟨report, hits⟩ := by
    simp only [Turn.reset, Duration.asSecs, difference]
  conv_lhs => unfold limitCheck
  simp only [here, renews, subtracted, reset, Turn.exhausted, decide_eq_true_eq, Turn.exhaustedInfo,
    Turn.noted, Turn.chargedInfo, UsageReport.charge]
  by_cases short : report.leftHits < hits
  · simp only [if_pos short]
  · simp only [if_neg short]
    by_cases least : info.limit.all fun limit => report.maxValue < limit
    · simp only [if_pos least]
    · simp only [if_neg least]

/-- The loop decides as its turns do: it stops at the first one that is
exhausted. -/
theorem limitCheck_decision (info : RateLimitInfo) (nodup : metrics.NodupKeys) (ready : Ready now app metrics) :
    (limitCheck now metrics app info).decision = some (decisionFrom now (turns now app metrics) info) := by
  induction metrics generalizing app info with
  | nil => rfl
  | cons entry rest ih =>
    obtain ⟨metric, hits⟩ := entry
    obtain ⟨fresh, nodupRest⟩ := List.nodupKeys_cons.mp nodup
    cases here : app.localState.lookup metric with
    | none =>
      have skipped : limitCheck now (⟨metric, hits⟩ :: rest) app info = limitCheck now rest app info := by
        conv_lhs => unfold limitCheck
        simp only [here]
      rw [skipped, turns_cons_unlimited here, ih info nodupRest ready.tail]
    | some found =>
      obtain ⟨report, renews, open_⟩ := ready metric hits found List.mem_cons_self here
      rw [limitCheck_cons_ready here renews open_, turns_cons here renews]
      by_cases exhausted : Turn.exhausted ⟨report, hits⟩
      · simp only [if_pos exhausted, decisionFrom, List.find?_cons_of_pos exhausted, Verdict.decision]
      · have later := ih (Turn.noted now info ⟨report, hits⟩) nodupRest
          (ready.tail.setReport (report.charge hits) fresh)
        rw [if_neg exhausted, later, turns_setReport _ fresh]
        simp only [decisionFrom, List.find?_cons_of_neg exhausted, List.foldl_cons]

end
end ThreescaleCache
