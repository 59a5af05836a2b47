import ThreescaleCache.CacheFilter
import ThreescaleCache.Deltas

namespace ThreescaleCache

/-- Proxy level representation of the report data for a single service. -/
structure Report where
  serviceId : Str
  serviceToken : Str
  usages : AppMap (List (Str × Str))
deriving DecidableEq

/-- The metrics of one application, with their values as strings. -/
def usageOf (appDeltas : Metrics) : List (Str × Str) :=
  appDeltas.entries.map fun entry => (entry.1, Nat.toDigits 10 entry.2.toNat)

/-- The loop that fills the usages of a report. -/
def usagesOf : List (Sigma fun _ : Str => AppIdentifier × Metrics) → AppMap (List (Str × Str)) →
    AppMap (List (Str × Str))
  | [], usages => usages
  | ⟨app, id, appDeltas⟩ :: rest, usages => usagesOf rest (usages.insert app (id, usageOf appDeltas))

/-- Used by the cache flush. `none` is the panic on a key without separator. -/
def report (key : Str) (apps : AppMap Metrics) : Option Report :=
  match key.splitOn '_' with
  | serviceId :: serviceToken :: _ => some
      { serviceId := serviceId
        serviceToken := serviceToken
        usages := usagesOf apps.entries ∅ }
  | _ => none

/-- What the builder of the `threescalers` crate is given for a report: the
extension is always the flat usage. -/
structure ReportCall where
  serviceToken : Str
  serviceId : Str
  transactions : List (Credential × List (Str × Str))
deriving DecidableEq

/-- What it is given for an authorize call of the singleton: no usage, and
the extensions of the filter's calls. -/
structure AuthCall where
  serviceToken : Str
  serviceId : Str
  application : Credential
deriving DecidableEq

/-- The functions of the crate that the singleton builds its requests with. -/
structure ApiCalls where
  buildReport : ReportCall → Option HttpRequest
  buildAuth : AuthCall → Option HttpRequest

def Report.call (report : Report) : ReportCall where
  serviceToken := report.serviceToken
  serviceId := report.serviceId
  transactions := report.usages.entries.map fun entry => (CacheFilter.credential entry.2.1, entry.2.2)

def authCall (cacheKey : CacheKey) (serviceToken : ServiceToken) : AuthCall where
  serviceToken := serviceToken
  serviceId := cacheKey.serviceId
  application := CacheFilter.credential cacheKey.appId

end ThreescaleCache
