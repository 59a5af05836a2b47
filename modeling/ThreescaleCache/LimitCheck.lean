import ThreescaleCache.SharedCache

namespace ThreescaleCache

/-- The renewal of an expired window. It pushes the window forward by whole
periods and resets the left hits; `none` is an overflow of a duration, after
which the application is dropped by all callers. -/
def UsageReport.renew (report : UsageReport) (currentTime : Duration) : Option UsageReport :=
  let period := report.periodWindow
  if period.window ≠ .eternity ∧ period.end < currentTime then do
    let timeDiff ← currentTime.checkedSub period.start
    let numWindows := timeDiff.asSecs / period.window.asSecs
    let secondsToAdd := numWindows * period.window.asSecs
    let start ← period.start.checkedAdd (.fromSecs secondsToAdd)
    let stop ← period.end.checkedAdd (.fromSecs secondsToAdd)
    some { report with
      periodWindow := { period with start := start, «end» := stop }
      leftHits := report.maxValue }
  else some report

/-- How the loop over the metrics of a request ends, with the application as
the loop leaves it. -/
inductive Verdict where
  | pass (app : Application) (info : RateLimitInfo)
  | limited (app : Application) (info : RateLimitInfo)
  | overflow
  | trap

def Application.setReport (app : Application) (metric : Str) (report : UsageReport) : Application :=
  { app with localState := app.localState.insert metric report }

/-- The loop of `limit_check_and_update_application`. Metrics without a
report are not limited. The RateLimit information is that of the report with
the least `max_value` seen so far. -/
def limitCheck (currentTime : Duration) :
    List (Sigma fun _ : Str => UInt64) → Application → RateLimitInfo → Verdict
  | [], app, info => .pass app info
  | ⟨metric, hits⟩ :: rest, app, info =>
    match app.localState.lookup metric with
    | none => limitCheck currentTime rest app info
    | some found =>
      match found.renew currentTime with
      | none => .overflow
      | some report =>
        if report.leftHits < hits then
          match report.periodWindow.end.checkedSub currentTime with
          | none => .trap
          | some reset => .limited (app.setReport metric report)
            { limit := some report.maxValue, remaining := some 0, reset := some reset.asSecs }
        else
          let report := { report with leftHits := report.leftHits - hits }
          if info.limit.all fun limit => report.maxValue < limit then
            match report.periodWindow.end.checkedSub currentTime with
            | none => .trap
            | some reset => limitCheck currentTime rest (app.setReport metric report)
              { limit := some report.maxValue, remaining := some report.leftHits,
                reset := some reset.asSecs }
          else limitCheck currentTime rest (app.setReport metric report) info

/-- Returns what was found, after noting it for the statements about runs. -/
def noteLimitCheck (result : Except UpdateMetricsError RateLimitStatus) :
    HostProg (Except UpdateMetricsError RateLimitStatus) := do
  ask (.limitChecked result)
  pure result

/-- Updates the application to reflect consumed quota if not rate-limited.
The changed `app` of the source is not returned: no caller reads it again. -/
def limitCheckAndUpdateApplication (data : ThreescaleData) (app : Application) (appCas : Nat)
    (currentTime : Duration) : HostProg (Except UpdateMetricsError RateLimitStatus) :=
  match limitCheck currentTime data.metrics.entries app {} with
  | .trap => .trap
  | .overflow => noteLimitCheck (.error .durationOverflow)
  | .limited _ info => noteLimitCheck (.ok (.rateLimited info))
  | .pass app info => do
    match ← setApplicationToCache app.cacheKey.asString app appCas with
    | .error e => noteLimitCheck (.error (.cacheUpdateFail e))
    | .ok () => noteLimitCheck (.ok (.authorized info))

/-- A `RefCell` with the number of shared borrows that are alive. -/
structure RefCell (α : Type) where
  value : α
  shared : Nat

namespace RefCell
variable {α : Type}

def new (a : α) : RefCell α := ⟨a, 0⟩
def borrow (c : RefCell α) : RefCell α := { c with shared := c.shared + 1 }
def release (c : RefCell α) : RefCell α := { c with shared := c.shared - 1 }

/-- A change under `borrow_mut`, which panics while a borrow is alive. -/
def borrowMut (c : RefCell α) (change : α → α) : Option (RefCell α) :=
  if c.shared = 0 then some { c with value := change c.value } else none

end RefCell

/-- `*metrics.entry(parent).or_insert(0) += hits`. -/
def Metrics.addHits (metrics : Metrics) (parent : Str) (hits : UInt64) : Metrics :=
  metrics.insert parent ((metrics.lookup parent).getD 0 + hits)

/-- The inner loop, over the metrics as borrowed at its start. -/
def addChildren (parent : Str) (children : List Str) :
    List (Sigma fun _ : Str => UInt64) → RefCell Metrics → Option (RefCell Metrics)
  | [], cell => some cell
  | ⟨metric, hits⟩ :: rest, cell =>
    if metric ∈ children then do
      let cell ← cell.borrowMut (·.addHits parent hits)
      addChildren parent children rest cell
    else addChildren parent children rest cell

/-- The outer loop. The borrow of the inner loop is alive until that loop ends. -/
def addParents : List (Sigma fun _ : Str => List Str) → RefCell Metrics → Option (RefCell Metrics)
  | [], cell => some cell
  | ⟨parent, children⟩ :: rest, cell => do
    let cell ← addChildren parent children cell.value.entries cell.borrow
    addParents rest cell.release

/-- Increments parent metrics by the value of their children. `none` is the
panic of a mutable borrow. -/
def addHierarchyToMetrics (hierarchy : Hierarchy) (metrics : Metrics) : Option Metrics :=
  (addParents hierarchy.entries (.new metrics)).map (·.value)

end ThreescaleCache
