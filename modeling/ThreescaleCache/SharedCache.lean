import ThreescaleCache.Serialization

namespace ThreescaleCache
open Interaction

/-! The cache of applications over shared data, and the counter of the
memory that it uses. -/

def sharedMemoryCounterKey : Str := "SHARED_MEMORY_COUNTER".toList
def sharedMemoryInitialSize : UInt64 := 1000

/-- Returns the application from shared data with its CAS. -/
def getApplicationFromCache (key : CacheKey) : HostProg (Except CacheError (Application × Nat)) := do
  match ← getSharedData key.asString with
  | .ok (some value, some cas) =>
    match value with
    | .application app => pure (.ok (app, cas))
    | _ => pure (.error .deserializeFail)
  | .ok (_, _) => pure (.error .appNotFound)
  | .error e => pure (.error (.proxyStatus e))

def getAppIdFromCache (userKey : UserKey) : HostProg (Except CacheError AppId) := do
  match ← getSharedData userKey with
  | .ok (some value, _) =>
    match value.text with
    | some id => pure (.ok id)
    | none => pure (.error .utf8Fail)
  | .ok (none, _) => pure (.error .appIdNotFound)
  | .error e => pure (.error (.proxyStatus e))

/-- What is made of the value that is read. -/
def appIdRead : Except Status (Option SharedValue × Option Nat) → Except CacheError AppId
  | .ok (some value, _) =>
    match value.text with
    | some id => .ok id
    | none => .error .utf8Fail
  | .ok (none, _) => .error .appIdNotFound
  | .error e => .error (.proxyStatus e)

theorem getAppIdFromCache_eq (userKey : UserKey) :
    getAppIdFromCache userKey = .call (.getSharedData userKey) fun reply => .done (appIdRead reply) := by
  unfold getAppIdFromCache getSharedData ask Prog.perform
  rw [Prog.call_bind]
  refine congrArg (Prog.call (HostCall.getSharedData userKey)) (funext fun reply => ?_)
  rw [Prog.done_bind]
  match reply with
  | .ok (none, _) | .error e => rfl
  | .ok (some value, _) =>
    dsimp only [appIdRead]
    cases value.text with
    | none | some => rfl

theorem appIdRead_eq_ok {reply : Except Status (Option SharedValue × Option Nat)} {id : AppId} :
    appIdRead reply = .ok id ↔ ∃ value cas, reply = .ok (some value, cas) ∧ value.text = some id := by
  match reply with
  | .ok (none, _) | .error e => simp [appIdRead]
  | .ok (some value, cas) =>
    cases text : value.text with
    | none => simp [appIdRead, text]
    | some id' => simp [appIdRead, text]

/-- Overwrites if already present inside the cache. -/
def setAppIdToCache (userKey : UserKey) (appId : AppId) : HostProg (Except CacheError Unit) := do
  match ← setSharedData userKey (some (.appId appId)) none with
  | .ok () => pure (.ok ())
  | .error e => pure (.error (.proxyStatus e))

/-- Memory used in bytes for both key and value. -/
def getCachePairSize (key : Str) : HostProg (Except CacheError Nat) := do
  match ← getSharedData key with
  | .ok (some value, _) => pure (.ok (key.len + value.len))
  | .ok (none, _) => pure (.ok key.len)
  | .error e => pure (.error (.proxyStatus e))

inductive MemoryCounterFailure where
  | notACounter
  | firstWrite (status : Status)
  | read (status : Status)
  | update (status : Status)
deriving DecidableEq

def saturatingAdd (a b : UInt64) : UInt64 := if a ≤ a + b then a + b else 18446744073709551615

/-- The new size: a negative delta is negated as an `i32`, which traps on the
conversion to `u64` when it is still negative. -/
def finalSharedMemorySize (memoryUsed : UInt64) (delta : Int32) : Option UInt64 :=
  if delta < 0 then
    if -delta < 0 then none
    else
      let removed := UInt64.ofNat (-delta).toInt.toNat
      if memoryUsed ≤ removed then some sharedMemoryInitialSize else some (memoryUsed - removed)
  else some (saturatingAdd memoryUsed (UInt64.ofNat delta.toInt.toNat))

def writeSharedMemorySize (delta : Int32) (memoryUsed : UInt64) (cas : Nat) :
    HostProg (Except MemoryCounterFailure Unit) :=
  match finalSharedMemorySize memoryUsed delta with
  | none => .trap
  | some finalSize => do
    match ← setSharedData sharedMemoryCounterKey (some (.memoryCounter finalSize)) (some cas) with
    | .ok () => pure (.ok ())
    | .error e => pure (.error (.update e))

/-- Adds delta bytes to the shared memory usage counter. -/
def updateSharedMemorySize (delta : Int32) : HostProg (Except MemoryCounterFailure Unit) := do
  match ← getSharedData sharedMemoryCounterKey with
  | .ok (some value, some cas) =>
    match value.counter with
    | some memoryUsed => writeSharedMemorySize delta memoryUsed cas
    | none => pure (.error .notACounter)
  | .ok (_, _) =>
    match ← setSharedData sharedMemoryCounterKey
        (some (.memoryCounter sharedMemoryInitialSize)) none with
    | .ok () => writeSharedMemorySize delta sharedMemoryInitialSize 1
    | .error e => pure (.error (.firstWrite e))
  | .error e => pure (.error (.read e))

/-- The counter need not be accurate: after some failed tries it is left alone. -/
def retryUpdateSharedMemorySize (delta : Int32) : Nat → HostProg Unit
  | 0 => pure ()
  | tries + 1 => do
    match ← updateSharedMemorySize delta with
    | .ok () => pure ()
    | .error _ => retryUpdateSharedMemorySize delta tries

/-- If `cas` is 0, the cache record is overwritten. -/
def setApplicationToCache (key : Str) (app : Application) (cas : Nat) :
    HostProg (Except SetFailure Unit) := do
  match ← getCachePairSize key with
  | .error e => pure (.error (.pairSize e))
  | .ok prevMemoryUsage =>
    let memoryDelta := Int32.ofNat key.len + Int32.ofNat app.serializedLen -
      Int32.ofNat prevMemoryUsage
    match ← setSharedData key (some (.application app)) (some cas) with
    | .error e => pure (.error (.set key (.proxyStatus e)))
    | .ok () => do
      retryUpdateSharedMemorySize memoryDelta 3
      pure (.ok ())

/-- Deletes an application from the cache: the value is erased, the key stays. -/
def removeApplicationFromCache (key : Str) : HostProg Unit := do
  let _ ← setSharedData key none none
  pure ()

end ThreescaleCache
