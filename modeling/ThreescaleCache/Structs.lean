import Mathlib.Algebra.Ring.Nat
import Mathlib.Data.List.AList

namespace ThreescaleCache

/-- A Rust `String`: a sequence of Unicode scalar values. -/
abbrev Str := List Char

/-- `String::len`, the number of bytes of the UTF-8 form. -/
def Str.len (s : Str) : Nat := (s.map Char.utf8Size).sum

/-- A `HashMap<String, V>`. The order of `entries` is the iteration order,
about which nothing is assumed. -/
abbrev HashMap (V : Type) := AList fun _ : Str => V

/-- `std::time::Duration`, counted in nanoseconds: less than `2^64` seconds. -/
structure Duration where
  nanos : Nat
  bound : nanos < 2 ^ 64 * 10 ^ 9
deriving DecidableEq

namespace Duration

instance : LT Duration := ⟨fun a b => a.nanos < b.nanos⟩
instance : LE Duration := ⟨fun a b => a.nanos ≤ b.nanos⟩
instance (a b : Duration) : Decidable (a < b) := inferInstanceAs (Decidable (a.nanos < b.nanos))
instance (a b : Duration) : Decidable (a ≤ b) := inferInstanceAs (Decidable (a.nanos ≤ b.nanos))

theorem lt_iff {a b : Duration} : a < b ↔ a.nanos < b.nanos := Iff.rfl
theorem le_iff {a b : Duration} : a ≤ b ↔ a.nanos ≤ b.nanos := Iff.rfl

def fromSecs (secs : UInt64) : Duration :=
  ⟨secs.toNat * 10 ^ 9, by have := secs.toNat_lt; omega⟩

def fromMillis (millis : UInt64) : Duration :=
  ⟨millis.toNat * 10 ^ 6, by have := millis.toNat_lt; omega⟩

def asSecs (d : Duration) : UInt64 := UInt64.ofNat (d.nanos / 10 ^ 9)

def checkedSub (a b : Duration) : Option Duration :=
  if b ≤ a then some ⟨a.nanos - b.nanos, lt_of_le_of_lt (Nat.sub_le _ _) a.bound⟩ else none

def checkedAdd (a b : Duration) : Option Duration :=
  if h : a.nanos + b.nanos < 2 ^ 64 * 10 ^ 9 then some ⟨a.nanos + b.nanos, h⟩ else none

theorem checkedSub_of_le {a b : Duration} (h : b ≤ a) :
    ∃ d, a.checkedSub b = some d ∧ d.nanos = a.nanos - b.nanos :=
  ⟨_, if_pos h, rfl⟩

end Duration

inductive Period where
  | minute
  | hour
  | day
  | week
  | month
  | year
  | eternity
deriving DecidableEq

def Period.asSecs : Period → UInt64
  | .minute => 60
  | .hour => 3600
  | .day => 86400
  | .week => 604800
  | .month => 2592000
  | .year => 31536000
  | .eternity => 18446744073709551615

structure PeriodWindow where
  start : Duration
  «end» : Duration
  window : Period
deriving DecidableEq

structure UsageReport where
  periodWindow : PeriodWindow
  leftHits : UInt64
  /-- Required to renew the window until new state is fetched from 3scale. -/
  maxValue : UInt64
deriving DecidableEq

abbrev AppId := Str
abbrev AppKey := Str
abbrev UserKey := Str
abbrev ServiceId := Str
abbrev ServiceToken := Str
abbrev Hierarchy := HashMap (List Str)

/-- The value inside the `RefCell` of the source's `Metrics`. -/
abbrev Metrics := HashMap UInt64

inductive AppIdentifier where
  | appId (id : AppId) (key : Option AppKey)
  | userKey (key : UserKey)
deriving DecidableEq

namespace AppIdentifier

/-- `AsRef<str>`: the application key is dropped. `Hash` and `PartialEq` of
the source look at this string only. -/
def asRef : AppIdentifier → Str
  | .appId id _ => id
  | .userKey key => key

def appidFromStr (s : Str) : AppIdentifier :=
  match s.splitOn ':' with
  | [id, key] => .appId id (some key)
  | id :: _ => .appId id none
  | [] => .appId [] none

end AppIdentifier

/-- Threescale's Application representation for cache. -/
structure Application where
  appId : AppIdentifier
  serviceId : ServiceId
  localState : HashMap UsageReport
  metricHierarchy : Hierarchy
  appKeys : Option (List AppKey)
deriving DecidableEq

structure CacheKey where
  serviceId : ServiceId
  appId : AppIdentifier
deriving DecidableEq

namespace CacheKey

def asString (k : CacheKey) : Str := k.serviceId ++ '_' :: k.appId.asRef

/-- `CacheKey::default`. -/
def empty : CacheKey := ⟨[], .appidFromStr []⟩

def setAppId (k : CacheKey) (newAppId : AppIdentifier) : CacheKey := { k with appId := newAppId }

end CacheKey

/-- The key that an application is stored under: the one made of its own ids. -/
def Application.cacheKey (app : Application) : CacheKey := ⟨app.serviceId, app.appId⟩

/-- The parts of a parsed `url::Url` that the callout reads. -/
structure Url where
  scheme : Str
  authority : Str
  path : Str
  query : Option Str
deriving DecidableEq

structure Upstream where
  name : Str
  url : Url
  timeout : Duration
deriving DecidableEq

/-- Request data received from previous filters. -/
structure ThreescaleData where
  appId : AppIdentifier
  serviceId : ServiceId
  serviceToken : ServiceToken
  metrics : Metrics
  upstream : Upstream
deriving DecidableEq

structure Message where
  updateCacheFromSingleton : Bool
  data : ThreescaleData
  reqTime : Duration
deriving DecidableEq

/-- Info relevant for the RateLimit headers. -/
structure RateLimitInfo where
  limit : Option UInt64 := none
  remaining : Option UInt64 := none
  reset : Option UInt64 := none
deriving DecidableEq

/-- Signifies whether to rate-limit a request or not. -/
inductive RateLimitStatus where
  | authorized (info : RateLimitInfo)
  | rateLimited (info : RateLimitInfo)
deriving DecidableEq

end ThreescaleCache
