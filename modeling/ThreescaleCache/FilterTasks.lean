import ThreescaleCache.Credentials
import ThreescaleCache.WokenWaiters

namespace ThreescaleCache
open Interaction

/-! The callbacks of the filters, of their contexts and of their roots. -/

theorem threadQueueName_ne (rootId : Nat) : threadQueueName rootId ≠ queueName := by
  intro same
  have member : 'm' ∈ threadQueueName rootId := by
    rw [same]
    decide
  have digit := Nat.isDigit_of_mem_toDigits (by decide) (by decide) member
  exact absurd digit (by decide)

/-- What the host calls a filter for. -/
inductive FilterTask where
  | requestHeaders (lib : ThirdParty) (rounds : Nat) (f : CacheFilter) (headers : Str → Option Str)
  | responseHeaders (f : CacheFilter)
  | callResponse (f : CacheFilter) (response : CallResponse)
  | queueReady (root : CacheFilterRoot) (queueId : Nat)

def FilterTask.program : FilterTask → HostProg Unit
  | .requestHeaders lib rounds f headers => do
    let _ ← f.onHttpRequestHeaders lib rounds headers
    pure ()
  | .responseHeaders f => do
    let _ ← f.onHttpResponseHeaders
    pure ()
  | .callResponse f response => do
    let _ ← f.onHttpCallResponse response
    pure ()
  | .queueReady root queueId => root.onQueueReady queueId

/-- Parties that are contexts, as their root creates them, or others. -/
def contextsStart {ι : Type} (contexts : ι → Option (CacheFilterRoot × Nat)) (h : Host) :
    Config ι HostCall HostCall.Reply Host (Option CacheFilter) where
  shared := h
  procs := fun i => .done ((contexts i).map fun context => context.1.createHttpContext context.2)
  trace := []

/-- A root is called for its own queue, which is not the singleton's. -/
def FilterTask.Spares (queueId : Nat) : FilterTask → Prop
  | .queueReady _ own => own ≠ queueId
  | _ => True

/-- Calls that take nothing from a queue. -/
def Untaken (queueId : Nat) (c : HostCall) : Prop := c ≠ .dequeueSharedQueue queueId

section
variable {queueId : Nat}

theorem untaken_inward {c : HostCall} (inward : Inward c) : Untaken queueId c := by
  rintro rfl
  exact inward

theorem untaken_freeCall {key : Str} {c : HostCall} (free : FreeCall key c) : Untaken queueId c := by
  rintro rfl
  cases free

theorem untaken_failureCall {c : HostCall} (failure : FailureCall c) : Untaken queueId c := by
  rintro rfl
  cases failure

theorem untaken_answerCall {key : CacheKey} {c : HostCall} (answer : AnswerCall key c) :
    Untaken queueId c := by
  cases answer with
  | hit hit => exact untaken_inward (inward_hitCall hit)
  | giveUp failure => exact untaken_failureCall failure
  | record | refuse => rintro ⟨⟩

theorem untaken_wakeCall {c : HostCall} (wake : WakeCall c) : Untaken queueId c := by
  cases wake with
  | hit hit => exact untaken_inward (inward_hitCall hit)
  | giveUp failure => exact untaken_failureCall failure

theorem untaken_doAuthCall (lib : ThirdParty) (f : CacheFilter) : (f.doAuthCall lib).Only (Untaken queueId) := by
  have fails : f.inRequestFailure.Only (Untaken queueId) :=
    (inward_inRequestFailure f).mono fun _ => untaken_inward
  unfold CacheFilter.doAuthCall
  cases lib.buildApiCall (CacheFilter.authorizeCall f.state.reqData) with
  | none => exact fails
  | some request =>
    refine ⟨by rintro ⟨⟩, fun reply => ?_⟩
    cases reply with
    | ok token => trivial
    | error e => exact fails

theorem untaken_lookUp {ε α : Type} {lib : ThirdParty} {rounds : Nat} {f : CacheFilter}
    {read : HostProg (Except ε α)} {found : α → HostProg (CacheFilter × Action)}
    (reads : read.Only (Untaken queueId)) (hits : ∀ a, (found a).Only (Untaken queueId)) :
    (f.lookUp lib rounds read found).Only (Untaken queueId) := by
  have fails : f.inRequestFailure.Only (Untaken queueId) :=
    (inward_inRequestFailure f).mono fun _ => untaken_inward
  refine Prog.only_bind reads fun first => ?_
  cases first with
  | ok a => exact hits a
  | error e =>
    refine Prog.only_bind ((inward_incrementStat .cacheMisses).mono fun _ => untaken_inward) fun _ => ?_
    refine Prog.only_bind ((only_setCalloutLock rounds f).mono fun _ tried =>
      untaken_inward (inward_tryLockCall tried)) fun status => ?_
    match status with
    | .ok .lockAcquired => exact untaken_doAuthCall lib f
    | .ok .addedToWaitlist => trivial
    | .error _ => exact fails
    | .ok .responseCameFirst =>
      refine Prog.only_bind reads fun second => ?_
      cases second with
      | ok a => exact hits a
      | error e => exact fails

theorem untaken_lookupApplication (lib : ThirdParty) (rounds : Nat) (f : CacheFilter) :
    (f.lookupApplication lib rounds).Only (Untaken queueId) := by
  rw [lookupApplication_eq]
  refine untaken_lookUp ((only_getApplicationFromCache _).mono fun _ side =>
    untaken_inward (inward_sideCall side)) fun found => ?_
  exact (inward_cacheHitOrFail f found.1 found.2).mono fun _ => untaken_inward

theorem untaken_onHttpRequestHeaders (lib : ThirdParty) (rounds : Nat) (f : CacheFilter)
    (headers : Str → Option Str) : (f.onHttpRequestHeaders lib rounds headers).Only (Untaken queueId) := by
  unfold CacheFilter.onHttpRequestHeaders
  split
  · refine ⟨by rintro ⟨⟩, fun _ => ⟨by rintro ⟨⟩, fun _ => trivial⟩⟩
  · dsimp only
    split
    · rw [onUserKey_eq]
      refine untaken_lookUp ((only_getAppIdFromCache _).mono fun _ side =>
        untaken_inward (inward_sideCall side)) fun appId => ?_
      exact untaken_lookupApplication lib rounds _
    · exact untaken_lookupApplication lib rounds _

theorem untaken_addRateLimitHeader (name : String) (value : Option UInt64) :
    (CacheFilter.addRateLimitHeader name value).Only (Untaken queueId) := by
  cases value with
  | none => trivial
  | some value => exact ⟨by rintro ⟨⟩, fun _ => trivial⟩

theorem untaken_onHttpResponseHeaders (f : CacheFilter) :
    f.onHttpResponseHeaders.Only (Untaken queueId) := by
  refine Prog.only_bind (untaken_addRateLimitHeader _ _) fun _ => ?_
  refine Prog.only_bind (untaken_addRateLimitHeader _ _) fun _ => ?_
  exact Prog.only_bind (untaken_addRateLimitHeader _ _) fun _ => trivial

/-- The response callback makes the calls for its answer, and those that free the lock. -/
theorem only_contextResponse (f : CacheFilter) (response : CallResponse) :
    (f.onHttpCallResponse response).Only fun c =>
      AnswerCall f.state.cacheKey c ∨ FreeCall (calloutLockKey f.state.cacheKey) c := by
  unfold CacheFilter.onHttpCallResponse
  cases response.status with
  | none => trivial
  | some status =>
    refine Prog.only_bind ((only_onCallResult f status response.body).mono fun _ => Or.inl) fun result => ?_
    match result with
    | (f', none) => trivial
    | (f', some action) =>
      exact Prog.only_bind ((only_freeCalloutLock f.state.cacheKey action).mono fun _ => Or.inr) fun _ => trivial

theorem untaken_onHttpCallResponse (f : CacheFilter) (response : CallResponse) :
    (f.onHttpCallResponse response).Only (Untaken queueId) :=
  (only_contextResponse f response).mono fun _ call => call.elim untaken_answerCall untaken_freeCall

theorem untaken_resumeWaiter (root : CacheFilterRoot) (action : WaiterAction) :
    (root.resumeWaiter action).Only (Untaken queueId) := by
  have removes : (ask (.removeWaitingContext root.id action.contextId)).Only (Untaken queueId) :=
    ⟨by rintro ⟨⟩, fun _ => trivial⟩
  refine ⟨by rintro ⟨⟩, fun context => ?_⟩
  cases context with
  | none => trivial
  | some context =>
    refine ⟨by rintro ⟨⟩, fun effective => ?_⟩
    match effective with
    | .error e => exact removes
    | .ok () =>
      refine Prog.only_bind (p := CacheFilterRoot.wakeWaiter context action) ?_ fun _ => removes
      exact (only_wakeWaiter action).mono fun _ => untaken_wakeCall

/-- The filters take nothing from the queue of the singleton. -/
theorem untaken_filterTask {task : FilterTask} (spares : task.Spares queueId) :
    task.program.Only (Untaken queueId) := by
  cases task with
  | requestHeaders lib rounds f headers =>
    exact Prog.only_bind (untaken_onHttpRequestHeaders lib rounds f headers) fun _ => trivial
  | responseHeaders f => exact Prog.only_bind (untaken_onHttpResponseHeaders f) fun _ => trivial
  | callResponse f response =>
    exact Prog.only_bind (untaken_onHttpCallResponse f response) fun _ => trivial
  | queueReady root own =>
    refine ⟨by rintro ⟨⟩; exact spares rfl, fun reply => ?_⟩
    match reply with
    | .ok (some (.waiterAction action)) => exact untaken_resumeWaiter root action
    | .ok (some (.message _)) | .ok none | .error _ => trivial

end
end ThreescaleCache
