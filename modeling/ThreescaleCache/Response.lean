import ThreescaleCache.Structs

namespace ThreescaleCache

/-! The parsed form of a 3scale authorize response, as the `threescalers`
crate hands it over. -/

inductive ResponsePeriod where
  | minute
  | hour
  | day
  | week
  | month
  | year
  | eternity
  | unknown
deriving DecidableEq

/-- `impl From<&ResponsePeriod> for Period`. -/
def Period.ofResponse : ResponsePeriod → Period
  | .minute => .minute
  | .hour => .hour
  | .day => .day
  | .week => .week
  | .month => .month
  | .year => .year
  | .eternity => .eternity
  | .unknown => .eternity

structure ResponseUsage where
  metric : Str
  period : ResponsePeriod
  periodStart : Int64
  periodEnd : Int64
  maxValue : UInt64
  currentValue : UInt64
deriving DecidableEq

structure ListAppKeys where
  serviceId : Option Str
  appId : Option Str
  keys : List Str
deriving DecidableEq

structure AuthorizationStatus where
  isAuthorized : Bool
  reason : Option Str
  usageReports : Option (List ResponseUsage)
  hierarchy : Option Hierarchy
  appKeys : Option ListAppKeys
deriving DecidableEq

inductive Authorization where
  | status (response : AuthorizationStatus)
  | error (code : Str)
deriving DecidableEq

/-- The bytes of a response body, by what the handlers make of them. -/
inductive ResponseBody where
  | notUtf8
  | unparsable
  | parsed (authorization : Authorization)
deriving DecidableEq

/-- What the host delivers for a dispatched call: the `:status` header and
the body, each possibly missing. -/
structure CallResponse where
  status : Option Str
  body : Option ResponseBody
deriving DecidableEq

/-- Times of a response are `i64`; a negative one does not convert. -/
def secsOfResponse (t : Int64) : Option Duration :=
  if t < 0 then none else some (.fromSecs t.toUInt64)

/-- The cached form of one usage report. The subtraction is that of the
release build, modulo `2^64`. -/
def UsageReport.ofResponse (usage : ResponseUsage) : Option UsageReport :=
  match secsOfResponse usage.periodStart, secsOfResponse usage.periodEnd with
  | some start, some stop => some
      { periodWindow := { start := start, «end» := stop, window := .ofResponse usage.period }
        leftHits := usage.maxValue - usage.currentValue
        maxValue := usage.maxValue }
  | _, _ => none

/-- The loop over the reports: they are inserted by metric, in their order. -/
def localStateOfReports : List ResponseUsage → HashMap UsageReport → Option (HashMap UsageReport)
  | [], state => some state
  | usage :: rest, state =>
    match UsageReport.ofResponse usage with
    | some report => localStateOfReports rest (state.insert usage.metric report)
    | none => none

/-- The loop that copies the hierarchy, if there is one. -/
def hierarchyOfResponse : Option Hierarchy → Hierarchy
  | none => ∅
  | some metrics => metrics.entries.foldl (fun h entry => h.insert entry.1 entry.2) ∅

end ThreescaleCache
