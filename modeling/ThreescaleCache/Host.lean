import Mathlib.Logic.Function.Basic
import ThreescaleCache.Interaction.Interleave
import ThreescaleCache.Structs

namespace ThreescaleCache
open Interaction

structure FilterConfig where
  failureModeDeny : Bool := true
  maxTries : Nat := 5
deriving DecidableEq

/-- State data collected and updated during a request lifetime. -/
structure RequestState where
  updateCacheFromSingleton : Bool
  reqData : ThreescaleData
  cacheKey : CacheKey
  rateLimitInfo : RateLimitInfo
deriving DecidableEq

structure CacheFilter where
  contextId : Nat
  rootId : Nat
  config : FilterConfig
  state : RequestState
deriving DecidableEq

structure CalloutWaiter where
  queueId : Nat
  httpContextId : Nat
deriving DecidableEq

structure CalloutLockValue where
  ownedBy : Nat
  waiters : List CalloutWaiter
deriving DecidableEq

inductive WaiterAction where
  | handleCacheHit (contextId : Nat)
  | handleFailure (contextId : Nat)
deriving DecidableEq

/-- The values kept in shared data, each by what was serialized into it. A
reader meets a value of another kind where keys of two kinds coincide: as text,
as a callout-lock and as the counter every value is read by its bytes. An
application is read only from one; other bytes would have to begin with one of
its variant indices, a `u32` of 0 or 1. -/
inductive SharedValue where
  | application (app : Application)
  | appId (id : AppId)
  | calloutLock (value : CalloutLockValue)
  | memoryCounter (size : UInt64)
deriving DecidableEq

inductive QueueItem where
  | message (message : Message)
  | waiterAction (action : WaiterAction)
deriving DecidableEq

/-- The failures among the proxy's statuses. -/
inductive Status where
  | notFound
  | badArgument
  | empty
  | casMismatch
  | internalFailure
deriving DecidableEq

inductive CacheError where
  | appIdNotFound
  | appNotFound
  | utf8Fail
  | proxyStatus (status : Status)
  | deserializeFail
deriving DecidableEq

/-- Why an application was not set: its pair size could not be read, or the
set itself failed for the key. -/
inductive SetFailure where
  | pairSize (error : CacheError)
  | set (key : Str) (error : CacheError)
deriving DecidableEq

inductive UpdateMetricsError where
  | durationOverflow
  | cacheUpdateFail (reason : SetFailure)
deriving DecidableEq

inductive Stat where
  | cachedApps
  | cacheMisses
  | cacheHits
  | unauthorized
  | authorizeTimeouts
  | authMetadataErrors
deriving DecidableEq

structure HttpCall where
  cluster : Str
  headers : List (Str × Str)
  body : Option Str
  timeout : Duration
deriving DecidableEq

/-- What the filter and the singleton ask of their surroundings. All but the
last are calls of the proxy, or accesses to the thread's `WAITING_CONTEXTS`.
`limitChecked` is a ghost: it changes nothing and records in a trace what a
limit check has returned. -/
inductive HostCall where
  | getSharedData (key : Str)
  | setSharedData (key : Str) (value : Option SharedValue) (cas : Option Nat)
  | resolveSharedQueue (name : Str)
  | enqueueSharedQueue (queueId : Nat) (item : QueueItem)
  | dequeueSharedQueue (queueId : Nat)
  | getCurrentTime
  | resumeHttpRequest
  | sendHttpResponse (status : Nat) (body : Option Str)
  | addHttpResponseHeader (name value : Str)
  | dispatchHttpCall (call : HttpCall)
  | incrementMetric (stat : Stat) (delta : Int)
  | setEffectiveContext (contextId : Nat)
  | insertWaitingContext (context : CacheFilter)
  | getWaitingContext (rootId contextId : Nat)
  | removeWaitingContext (rootId contextId : Nat)
  | limitChecked (result : Except UpdateMetricsError RateLimitStatus)

/-- The current time is `none` when it lies before the epoch. -/
@[reducible] def HostCall.Reply : HostCall → Type
  | .getSharedData _ => Except Status (Option SharedValue × Option Nat)
  | .setSharedData .. => Except Status Unit
  | .resolveSharedQueue _ => Option Nat
  | .enqueueSharedQueue .. => Except Status Unit
  | .dequeueSharedQueue _ => Except Status (Option QueueItem)
  | .getCurrentTime => Option Duration
  | .dispatchHttpCall _ => Except Status Nat
  | .setEffectiveContext _ => Except Status Unit
  | .getWaitingContext .. => Option CacheFilter
  | _ => Unit

abbrev HostProg (α : Type) := Prog HostCall HostCall.Reply α
abbrev HostEvent := Event HostCall HostCall.Reply
abbrev HostProtocol (L : Type) := Protocol HostCall HostCall.Reply L

instance : ∀ c : HostCall, Nonempty c.Reply
  | .getSharedData _ => ⟨.error .notFound⟩
  | .setSharedData .. => ⟨.error .notFound⟩
  | .resolveSharedQueue _ => ⟨none⟩
  | .enqueueSharedQueue .. => ⟨.error .notFound⟩
  | .dequeueSharedQueue _ => ⟨.error .notFound⟩
  | .getCurrentTime => ⟨none⟩
  | .resumeHttpRequest => ⟨()⟩
  | .sendHttpResponse .. => ⟨()⟩
  | .addHttpResponseHeader .. => ⟨()⟩
  | .dispatchHttpCall _ => ⟨.error .notFound⟩
  | .incrementMetric .. => ⟨()⟩
  | .setEffectiveContext _ => ⟨.error .notFound⟩
  | .insertWaitingContext _ => ⟨()⟩
  | .getWaitingContext .. => ⟨none⟩
  | .removeWaitingContext .. => ⟨()⟩
  | .limitChecked _ => ⟨()⟩

def ask (c : HostCall) : HostProg c.Reply := .perform c

def getSharedData (key : Str) : HostProg (Except Status (Option SharedValue × Option Nat)) :=
  ask (.getSharedData key)

def setSharedData (key : Str) (value : Option SharedValue) (cas : Option Nat) :
    HostProg (Except Status Unit) :=
  ask (.setSharedData key value cas)

def resolveSharedQueue (name : Str) : HostProg (Option Nat) := ask (.resolveSharedQueue name)

def enqueueSharedQueue (queueId : Nat) (item : QueueItem) : HostProg (Except Status Unit) :=
  ask (.enqueueSharedQueue queueId item)

def dequeueSharedQueue (queueId : Nat) : HostProg (Except Status (Option QueueItem)) :=
  ask (.dequeueSharedQueue queueId)

def getCurrentTime : HostProg (Option Duration) := ask .getCurrentTime

def resumeHttpRequest : HostProg Unit := ask .resumeHttpRequest

def sendHttpResponse (status : Nat) (body : Option Str) : HostProg Unit :=
  ask (.sendHttpResponse status body)

def dispatchHttpCall (call : HttpCall) : HostProg (Except Status Nat) :=
  ask (.dispatchHttpCall call)

def incrementStat (stat : Stat) : HostProg Unit := ask (.incrementMetric stat 1)

def decrementStat (stat : Stat) : HostProg Unit := ask (.incrementMetric stat (-1))

/-- `if c { p }`. -/
def onlyIf (c : Prop) [Decidable c] (p : HostProg Unit) : HostProg Unit := if c then p else pure ()

/-- Shared data as the note in the callout lock describes it: a map from
keys to a value and its CAS. An erased key stays, without a value. Every
write is given the next CAS of one counter, which never repeats. -/
structure SharedData where
  entry : Str → Option (Option SharedValue × Nat)
  nextCas : Nat
  casBound : ∀ key value cas, entry key = some (value, cas) → 0 < cas ∧ cas < nextCas
  positive : 0 < nextCas

namespace SharedData

def empty : SharedData := ⟨fun _ => none, 1, by simp, by simp⟩

def get (d : SharedData) (key : Str) : Option SharedValue × Option Nat :=
  match d.entry key with
  | none => (none, none)
  | some (value, cas) => (value, some cas)

def value (d : SharedData) (key : Str) : Option SharedValue := (d.get key).1

def put (d : SharedData) (key : Str) (value : Option SharedValue) : SharedData where
  entry := Function.update d.entry key (some (value, d.nextCas))
  nextCas := d.nextCas + 1
  casBound := by
    intro k v c at_
    by_cases same : k = key
    · subst same
      simp only [Function.update_self, Option.some.injEq, Prod.mk.injEq] at at_
      have := d.positive
      omega
    · rw [Function.update_of_ne same] at at_
      have := d.casBound k v c at_
      omega
  positive := Nat.succ_pos _

/-- A CAS other than `0` has to be the stored one, if the key is present. -/
def set (d : SharedData) (key : Str) (value : Option SharedValue) (cas : Option Nat) :
    Except Status Unit × SharedData :=
  match d.entry key with
  | none => (.ok (), d.put key value)
  | some (_, stored) =>
    if cas.getD 0 = 0 ∨ cas.getD 0 = stored then (.ok (), d.put key value)
    else (.error .casMismatch, d)

theorem put_entry_self (d : SharedData) (key : Str) (value : Option SharedValue) :
    (d.put key value).entry key = some (value, d.nextCas) :=
  Function.update_self ..

theorem put_entry_ne (d : SharedData) {key other : Str} (value : Option SharedValue)
    (different : other ≠ key) : (d.put key value).entry other = d.entry other :=
  Function.update_of_ne different ..

@[simp] theorem put_nextCas (d : SharedData) (key : Str) (value : Option SharedValue) :
    (d.put key value).nextCas = d.nextCas + 1 := rfl

theorem get_absent {d : SharedData} {key : Str} (here : d.entry key = none) :
    d.get key = (none, none) := by
  simp only [get, here]

theorem get_present {d : SharedData} {key : Str} {value : Option SharedValue} {cas : Nat}
    (here : d.entry key = some (value, cas)) : d.get key = (value, some cas) := by
  simp only [get, here]

theorem set_absent {d : SharedData} {key : Str} (value : Option SharedValue) (cas : Option Nat)
    (here : d.entry key = none) : d.set key value cas = (.ok (), d.put key value) := by
  simp only [set, here]

theorem set_match {d : SharedData} {key : Str} {stored : Option SharedValue} {cas : Nat}
    (value : Option SharedValue) (here : d.entry key = some (stored, cas)) :
    d.set key value (some cas) = (.ok (), d.put key value) := by
  simp only [set, here, Option.getD_some, or_true, if_true]

theorem set_overwrite (d : SharedData) (key : Str) (value : Option SharedValue) {cas : Option Nat}
    (zero : cas.getD 0 = 0) : d.set key value cas = (.ok (), d.put key value) := by
  unfold set
  split
  · rfl
  · rw [if_pos (Or.inl zero)]

theorem set_mismatch {d : SharedData} {key : Str} {stored : Option SharedValue} {cas other : Nat}
    (value : Option SharedValue) (here : d.entry key = some (stored, cas)) (positive : other ≠ 0)
    (different : other ≠ cas) : d.set key value (some other) = (.error .casMismatch, d) := by
  simp only [set, here, Option.getD_some, positive, different, or_self, if_false]

theorem set_cases (d : SharedData) (key : Str) (value : Option SharedValue) (cas : Option Nat) :
    d.set key value cas = (.ok (), d.put key value) ∨ d.set key value cas = (.error .casMismatch, d) := by
  unfold set
  split
  · exact Or.inl rfl
  · split
    · exact Or.inl rfl
    · exact Or.inr rfl

/-- What a read tells for good: as long as the key has this CAS, it has this
value. -/
def Pins (d : SharedData) (key : Str) (value : Option SharedValue) (cas : Nat) : Prop :=
  0 < cas ∧ cas < d.nextCas ∧ ∃ v c, d.entry key = some (v, c) ∧ (c = cas → v = value)

theorem pins_of_entry {d : SharedData} {key : Str} {value : Option SharedValue} {cas : Nat}
    (here : d.entry key = some (value, cas)) : d.Pins key value cas := by
  obtain ⟨positive, older⟩ := d.casBound key value cas here
  exact ⟨positive, older, value, cas, here, fun _ => rfl⟩

theorem Pins.put {d : SharedData} {key : Str} {value : Option SharedValue} {cas : Nat}
    (pins : d.Pins key value cas) (other : Str) (v : Option SharedValue) :
    (d.put other v).Pins key value cas := by
  obtain ⟨positive, older, x, c, here, same⟩ := pins
  refine ⟨positive, by rw [put_nextCas]; omega, ?_⟩
  by_cases self : key = other
  · subst self
    refine ⟨v, d.nextCas, d.put_entry_self key v, fun later => ?_⟩
    omega
  · exact ⟨x, c, by rw [d.put_entry_ne v self, here], same⟩

/-- A write with the CAS of a read succeeds on what was read, or not at all. -/
theorem Pins.set {d : SharedData} {key : Str} {value : Option SharedValue} {cas : Nat}
    (pins : d.Pins key value cas) (v : Option SharedValue) :
    (d.entry key = some (value, cas) ∧ d.set key v (some cas) = (.ok (), d.put key v)) ∨
      d.set key v (some cas) = (.error .casMismatch, d) := by
  obtain ⟨positive, _, x, c, here, same⟩ := pins
  by_cases self : c = cas
  · rw [self, same self] at here
    exact Or.inl ⟨here, set_match v here⟩
  · exact Or.inr (set_mismatch v here (Nat.pos_iff_ne_zero.mp positive) (Ne.symm self))

/-- All applications that are stored satisfy `P`, together with their key. -/
def Stored (P : Str → Application → Prop) (d : SharedData) : Prop :=
  ∀ key app cas, d.entry key = some (some (.application app), cas) → P key app

theorem Stored.put {P : Str → Application → Prop} {d : SharedData} (stored : d.Stored P) {key : Str}
    {value : Option SharedValue} (fits : ∀ app, value = some (.application app) → P key app) :
    (d.put key value).Stored P := by
  intro other app cas entry
  by_cases same : other = key
  · subst same
    rw [d.put_entry_self] at entry
    cases Option.some.inj entry
    exact fits app rfl
  · rw [d.put_entry_ne value same] at entry
    exact stored other app cas entry

end SharedData

/-- The host as the programs see it. The last three fields are answers that
the surroundings decide. -/
structure Host where
  shared : SharedData
  queues : Nat → List QueueItem
  waiting : Nat → Nat → Option CacheFilter
  metrics : Stat → Int
  queueIds : Str → Option Nat
  clock : Option Duration
  dispatch : Except Status Nat

namespace Host

/-- Every queue takes what is put into it, and every context can be made the
effective one. That these calls fail is left to the results that allow any reply. -/
def exec : (c : HostCall) → Host → c.Reply × Host
  | .getSharedData key, h => (.ok (h.shared.get key), h)
  | .setSharedData key value cas, h =>
    ((h.shared.set key value cas).1, { h with shared := (h.shared.set key value cas).2 })
  | .resolveSharedQueue name, h => (h.queueIds name, h)
  | .enqueueSharedQueue queueId item, h =>
    (.ok (), { h with queues := Function.update h.queues queueId (h.queues queueId ++ [item]) })
  | .dequeueSharedQueue queueId, h =>
    (.ok (h.queues queueId).head?,
      { h with queues := Function.update h.queues queueId (h.queues queueId).tail })
  | .getCurrentTime, h => (h.clock, h)
  | .resumeHttpRequest, h => ((), h)
  | .sendHttpResponse _ _, h => ((), h)
  | .addHttpResponseHeader _ _, h => ((), h)
  | .dispatchHttpCall _, h => (h.dispatch, h)
  | .incrementMetric stat delta, h =>
    ((), { h with metrics := Function.update h.metrics stat (h.metrics stat + delta) })
  | .setEffectiveContext _, h => (.ok (), h)
  | .insertWaitingContext f, h =>
    ((), { h with waiting := Function.update h.waiting f.rootId
                    (Function.update (h.waiting f.rootId) f.contextId (some f)) })
  | .getWaitingContext rootId contextId, h => (h.waiting rootId contextId, h)
  | .removeWaitingContext rootId contextId, h =>
    ((), { h with waiting := Function.update h.waiting rootId
                    (Function.update (h.waiting rootId) contextId none) })
  | .limitChecked _, h => ((), h)

/-- Shared data are left as they are by a call, or written. -/
theorem exec_shared {p : SharedData → Prop} {c : HostCall} {h : Host} (before : p h.shared)
    (written : ∀ key value cas, c = .setSharedData key value cas → p (h.shared.put key value)) :
    p (exec c h).2.shared := by
  cases c with
  | setSharedData key value cas =>
    rcases h.shared.set_cases key value cas with put | refused
    · simp only [exec, put]
      exact written key value cas rfl
    · simp only [exec, refused]
      exact before
  | _ => exact before

/-- The surroundings may move the clock and let calls out succeed or fail. -/
def Env (h h' : Host) : Prop := ∃ clock dispatch, h' = { h with clock := clock, dispatch := dispatch }

end Host
end ThreescaleCache
