import ThreescaleCache.Serialization

namespace ThreescaleCache

inductive UniqueCalloutError where
  | deserializeFail
  | proxyFailure (status : Status)
  | mqResolveFail (rootId : Nat)
deriving DecidableEq

/-- The outcome for an http context trying to get the callout-lock.
`responseCameFirst`: before the context could be added to the waitlist, the
callout response came. -/
inductive SetCalloutLockStatus where
  | lockAcquired
  | addedToWaitlist
  | responseCameFirst
deriving DecidableEq

def calloutLockKey (cacheKey : CacheKey) : Str := "CL_".toList ++ cacheKey.asString

/-- The name of a thread's own queue. -/
def threadQueueName (rootId : Nat) : Str := Nat.toDigits 10 rootId

/-- The loop of `set_callout_lock`. `seen` is the owner of a lock that was
held when the context could not be added to its waiters; `rounds` bounds the
rounds that are looked at. -/
def setCalloutLockLoop (context : CacheFilter) (key : Str) (waiter : CalloutWaiter) :
    Nat → Option Nat → HostProg (Except UniqueCalloutError SetCalloutLockStatus)
  | 0, _ => .spin
  | rounds + 1, seen => do
    let lockValue : CalloutLockValue := { ownedBy := context.rootId, waiters := [] }
    match ← getSharedData key with
    | .ok (_, none) =>
      -- The CAS is 1, not `None`: if the key is present by now, the set fails.
      match ← setSharedData key (some (.calloutLock lockValue)) (some 1) with
      | .ok () => pure (.ok .lockAcquired)
      | .error .casMismatch => setCalloutLockLoop context key waiter rounds seen
      | .error e => pure (.error (.proxyFailure e))
    | .ok (some bytes, some cas) =>
      match bytes.lock with
      | some stored => do
        let updated : CalloutLockValue := { stored with waiters := stored.waiters ++ [waiter] }
        match ← setSharedData key (some (.calloutLock updated)) (some cas) with
        | .error .casMismatch => setCalloutLockLoop context key waiter rounds (some stored.ownedBy)
        | _ => do
          ask (.insertWaitingContext context)
          pure (.ok .addedToWaitlist)
      | none => pure (.error .deserializeFail)
    | .ok (none, some cas) =>
      if seen.isSome then pure (.ok .responseCameFirst)
      else
        match ← setSharedData key (some (.calloutLock lockValue)) (some cas) with
        | .ok () => pure (.ok .lockAcquired)
        | .error .casMismatch => setCalloutLockLoop context key waiter rounds seen
        | .error e => pure (.error (.proxyFailure e))
    | .error e => pure (.error (.proxyFailure e))

def setCalloutLock (rounds : Nat) (context : CacheFilter) :
    HostProg (Except UniqueCalloutError SetCalloutLockStatus) := do
  match ← resolveSharedQueue (threadQueueName context.rootId) with
  | none => pure (.error (.mqResolveFail context.rootId))
  | some queueId =>
    setCalloutLockLoop context (calloutLockKey context.state.cacheKey)
      { queueId := queueId, httpContextId := context.contextId } rounds none

/-- The action with the id of the context that is to resume. -/
def WaiterAction.withContext : WaiterAction → Nat → WaiterAction
  | .handleCacheHit _, id => .handleCacheHit id
  | .handleFailure _, id => .handleFailure id

/-- The loop over the waiters. A failing enqueue does not stop it. -/
def notifyWaiters (action : WaiterAction) : List CalloutWaiter → HostProg Unit
  | [] => pure ()
  | waiter :: rest => do
    let _ ← enqueueSharedQueue waiter.queueId
      (.waiterAction (action.withContext waiter.httpContextId))
    notifyWaiters action rest

/-- The value is erased whatever it is by now: neither value nor CAS is given. -/
def freeCalloutLockAndNotifyWaiters (cacheKey : CacheKey) (action : WaiterAction) :
    HostProg (Except UniqueCalloutError Unit) := do
  let key := calloutLockKey cacheKey
  match ← getSharedData key with
  | .ok (some bytes, _) =>
    match bytes.lock with
    | some value => do
      notifyWaiters action value.waiters
      match ← setSharedData key none none with
      | .ok () => pure (.ok ())
      | .error _ => .trap
    | none => pure (.error .deserializeFail)
  | .ok (none, _) => pure (.ok ())
  | .error e => pure (.error (.proxyFailure e))

end ThreescaleCache
