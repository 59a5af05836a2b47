import ThreescaleCache.BoundedWaiting
import ThreescaleCache.Broadcast
import ThreescaleCache.Charging

namespace ThreescaleCache
open Interaction

/-! Where the requests of a run are: each of them waits for a response of its
own or for somebody else's, or has been disposed of, or was forgotten. -/

/-- A request by its thread and its context. -/
abbrev RequestId := Nat × Nat

def CacheFilter.requestId (f : CacheFilter) : RequestId := (f.rootId, f.contextId)

def isDisposal (e : HostEvent) : Bool := isAnswer e || isRelease e

theorem any_isDisposal {t : List HostEvent} : t.any isDisposal = true ↔ Disposes t := by
  rw [List.any_eq_true]
  constructor
  · rintro ⟨⟨c, r⟩, member, is⟩
    cases c with
    | sendHttpResponse status body => exact Or.inr ⟨status, body, member⟩
    | resumeHttpRequest => exact Or.inl member
    | _ => simp [isDisposal, isAnswer, isRelease] at is
  · rintro (released | ⟨status, body, answered⟩)
    · exact ⟨_, released, rfl⟩
    · exact ⟨_, answered, rfl⟩

/-- What a callback has done with its request. -/
structure Fate where
  disposed : Bool := false
  out : Bool := false
  parked : Option CacheFilter := none

namespace Fate

def note (ℓ : Fate) : HostEvent → Fate
  | ⟨.sendHttpResponse .., _⟩ => { ℓ with disposed := true }
  | ⟨.resumeHttpRequest, _⟩ => { ℓ with disposed := true }
  | ⟨.dispatchHttpCall _, .ok _⟩ => { ℓ with out := true }
  | ⟨.insertWaitingContext w, _⟩ => { ℓ with parked := some w }
  | _ => ℓ

theorem disposed_note (ℓ : Fate) (e : HostEvent) :
    (ℓ.note e).disposed = true ↔ ℓ.disposed = true ∨ isDisposal e = true := by
  obtain ⟨c, r⟩ := e
  cases c with
  | sendHttpResponse | resumeHttpRequest => exact iff_of_true rfl (Or.inr rfl)
  | dispatchHttpCall call => cases r <;> simp [note, isDisposal, isAnswer, isRelease]
  | _ => simp [note, isDisposal, isAnswer, isRelease]

theorem out_note (ℓ : Fate) (e : HostEvent) : (ℓ.note e).out = true ↔ ℓ.out = true ∨ Dispatches e := by
  obtain ⟨c, r⟩ := e
  cases c with
  | dispatchHttpCall call =>
    cases r with
    | ok token => exact iff_of_true rfl (Or.inr ⟨call, token, rfl⟩)
    | error e =>
      refine (or_iff_left ?_).symm
      rintro ⟨_, _, ⟨⟩⟩
  | _ =>
    refine (or_iff_left ?_).symm
    rintro ⟨_, _, ⟨⟩⟩

theorem disposed_foldl (t : List HostEvent) : (t.foldl note {}).disposed = t.any isDisposal := by
  refine Bool.eq_iff_iff.mpr ((foldl_known_iff (fun ℓ : Fate => ℓ.disposed = true) disposed_note).trans ?_)
  simp

theorem out_foldl (t : List HostEvent) : (t.foldl note {}).out = true ↔ ∃ e ∈ t, Dispatches e := by
  refine (foldl_known_iff (fun ℓ : Fate => ℓ.out = true) out_note).trans ?_
  simp

end Fate

/-- Only the request itself is put among the waiting contexts, and only once. -/
def MayPark (request : RequestId) (ℓ : Fate) : HostCall → Prop
  | .insertWaitingContext w => ℓ.parked = none ∧ w.requestId = request
  | .removeWaitingContext .. => False
  | _ => True

noncomputable def fating (request : RequestId) : HostProtocol Fate :=
  folding Fate.note (fun _ => True) (MayPark request)

/-- Calls that do nothing with the request. -/
def Aside (c : HostCall) : Prop :=
  (∀ (ℓ : Fate) (r : c.Reply), ℓ.note ⟨c, r⟩ = ℓ) ∧ ∀ request ℓ, MayPark request ℓ c

variable {request : RequestId} {ℓ : Fate}

theorem fating_next {ℓ' : Fate} {c : HostCall} {r : c.Reply} :
    (fating request).next ℓ c r = some ℓ' ↔ ℓ' = ℓ.note ⟨c, r⟩ := by
  unfold fating
  rw [folding_next, true_and]

theorem fating_keeps : (fating request).Keeps (fun ℓ ℓ' => ℓ' = ℓ) Aside := by
  refine folding_keeps (fun _ => rfl) (fun first second => second.trans first) ?_ ?_
  · exact fun ℓ c aside => aside.2 request ℓ
  · exact fun ℓ c r aside => aside.1 ℓ r

theorem aside_sideCall {c : HostCall} (side : SideCall c) : Aside c := by
  cases side <;> exact ⟨fun _ _ => rfl, fun _ _ => trivial⟩

/-- A sequence whose first part does nothing with the request. -/
theorem fating_aside {α β : Type} {p : HostProg α} {next : α → HostProg β} {Q : Fate → β → Prop}
    (aside : p.Only Aside) (rest : ∀ a, Follows (fating request) Q (next a) ℓ) :
    Follows (fating request) Q (p >>= next) ℓ := by
  refine follows_bind.mpr ((fating_keeps.follows aside ℓ).mono fun ℓ' a same => ?_)
  subst same
  exact rest a

/-! The callback of the headers -/

theorem hitCall_mayPark {c : HostCall} (hit : HitCall c) : MayPark request ℓ c := by
  cases hit with
  | count | resolve | time | report | limit | resume => trivial
  | check check =>
    cases check with
    | checked => trivial
    | filing filing =>
      cases filing with
      | application => trivial
      | side side => cases side <;> trivial

theorem hitCall_note {c : HostCall} (hit : HitCall c) (r : c.Reply) :
    (ℓ.note ⟨c, r⟩).out = ℓ.out ∧ (ℓ.note ⟨c, r⟩).parked = ℓ.parked := by
  cases hit with
  | count | resolve | time | report | limit | resume => exact ⟨rfl, rfl⟩
  | check check =>
    cases check with
    | checked => exact ⟨rfl, rfl⟩
    | filing filing =>
      cases filing with
      | application => exact ⟨rfl, rfl⟩
      | side side => cases side <;> exact ⟨rfl, rfl⟩

/-- The calls of the cache hit flow can only dispose of the request. -/
theorem Fate.foldl_hits {t : List HostEvent} (hits : ∀ e ∈ t, HitCall e.1) :
    t.foldl note {} = { disposed := t.any isDisposal } := by
  have others : ∀ ℓ : Fate, (t.foldl note ℓ).out = ℓ.out ∧ (t.foldl note ℓ).parked = ℓ.parked := by
    induction t with
    | nil => exact fun _ => ⟨rfl, rfl⟩
    | cons e t ih =>
      intro ℓ
      obtain ⟨out, parked⟩ := hitCall_note (ℓ := ℓ) (hits e List.mem_cons_self) e.2
      obtain ⟨out', parked'⟩ := ih (fun e member => hits e (List.mem_cons_of_mem _ member)) (ℓ.note e)
      exact ⟨out'.trans out, parked'.trans parked⟩
  obtain ⟨out, parked⟩ := others {}
  rw [← disposed_foldl]
  cases fate : t.foldl note {}
  rw [fate] at out parked
  cases out
  cases parked
  rfl

/-- The cache hit flow disposes of the request, or fails without having done so. -/
inductive HitFate : Fate → CacheFilter × Except CacheHitError Unit → Prop
  | disposed {f : CacheFilter} : HitFate { disposed := true } (f, .ok ())
  | failed {f : CacheFilter} {e : CacheHitError} : HitFate {} (f, .error e)

theorem fating_handleCacheHit {f : CacheFilter} {app : Application} {cas : Nat} :
    Follows (fating request) HitFate (f.handleCacheHit app cas) {} := by
  refine follows_folding_iff.mpr fun t q path => ?_
  have hits := (only_handleCacheHit f app cas).path path
  refine ⟨fun before c r after split _ => ?_, fun result done _ => ?_⟩
  · exact hitCall_mayPark (hits ⟨c, r⟩ (by simp [split]))
  · have follows : Follows (disposing fun _ => True) (HitEnds f false) (f.handleCacheHit app cas) {} :=
      disposing_handleCacheHit
    have ends := (disposing_path (fun _ _ bad => bad) follows path).2 result done
    have released := released_ofTrace (t := t)
    have answered := answered_ofTrace (t := t)
    rw [Fate.foldl_hits hits]
    generalize Disposal.ofTrace t = disposal at ends released answered
    cases ends with
    | limited =>
      rw [any_isDisposal.mpr (Or.inr (answered.mp rfl))]
      exact .disposed
    | released =>
      rw [any_isDisposal.mpr (Or.inl (released.mp rfl))]
      exact .disposed
    | failed =>
      have none_ : t.any isDisposal = false := by
        refine Bool.eq_false_iff.mpr fun disposes => ?_
        rcases any_isDisposal.mp disposes with release | answer
        · cases released.mpr release
        · cases answered.mpr answer
      rw [none_]
      exact .failed

/-- What the callback of the headers comes to. -/
inductive HeadersFate (request : RequestId) : Fate → CacheFilter × Action → Prop
  | disposed {f : CacheFilter} {action : Action} : HeadersFate request { disposed := true } (f, action)
  | proceeds {f : CacheFilter} : HeadersFate request {} (f, .proceed)
  | out {f : CacheFilter} (same : f.requestId = request) : HeadersFate request { out := true } (f, .pause)
  | parked {f w : CacheFilter} (same : w.requestId = request) :
    HeadersFate request { parked := some w } (f, .pause)

theorem fating_inRequestFailure {f : CacheFilter} :
    Follows (fating request) (HeadersFate request) f.inRequestFailure {} := by
  unfold CacheFilter.inRequestFailure
  dsimp only
  split
  · refine ⟨trivial, fun _ ℓ' known => ?_⟩
    cases fating_next.mp known
    exact .disposed
  · exact .proceeds

theorem fating_cacheHitOrFail {f : CacheFilter} {app : Application} {cas : Nat} :
    Follows (fating request) (HeadersFate request) (f.cacheHitOrFail app cas) {} := by
  refine follows_bind.mpr (fating_handleCacheHit.mono fun ℓ outcome fate => ?_)
  cases fate with
  | disposed => exact .disposed
  | failed => exact fating_inRequestFailure

theorem fating_doAuthCall {lib : ThirdParty} {f : CacheFilter} (same : f.requestId = request) :
    Follows (fating request) (HeadersFate request) (f.doAuthCall lib) {} := by
  unfold CacheFilter.doAuthCall
  split
  · exact fating_inRequestFailure
  · refine ⟨trivial, fun reply ℓ' known => ?_⟩
    cases fating_next.mp known
    cases reply with
    | ok token => exact .out same
    | error e => exact fating_inRequestFailure

/-- Trying for the lock, a context may come to be parked. -/
inductive LockFate (request : RequestId) : Fate → Except UniqueCalloutError SetCalloutLockStatus → Prop
  | parked {w : CacheFilter} (same : w.requestId = request) :
    LockFate request { parked := some w } (.ok .addedToWaitlist)
  | other {status : Except UniqueCalloutError SetCalloutLockStatus} (not : status ≠ .ok .addedToWaitlist) :
    LockFate request {} status

theorem fating_setCalloutLock {rounds : Nat} {f : CacheFilter} (same : f.requestId = request) :
    Follows (fating request) (LockFate request) (setCalloutLock rounds f) {} := by
  refine fating_aside ⟨⟨fun _ _ => rfl, fun _ _ => trivial⟩, fun _ => trivial⟩ fun queue => ?_
  cases queue with
  | none => exact .other (by rintro ⟨⟩)
  | some queueId =>
    have aside : ∀ {c : HostCall}, Aside c → Follows (fating request) (fun ℓ _ => ℓ = {}) (ask c) {} := by
      intro c aside
      have only : (ask c).Only Aside := ⟨aside, fun _ => trivial⟩
      exact fating_keeps.follows only {}
    refine follows_setCalloutLockLoop (aside ⟨fun _ _ => rfl, fun _ _ => trivial⟩)
      (fun v cas => aside ⟨fun _ _ => rfl, fun _ _ => trivial⟩) ?_ ?_ rounds none
    · refine ⟨⟨rfl, same⟩, fun _ ℓ' known => ?_⟩
      cases fating_next.mp known
      exact .parked same
    · exact fun _ not => .other not

theorem fating_lookUp {ε α : Type} {lib : ThirdParty} {rounds : Nat} {f : CacheFilter}
    {read : HostProg (Except ε α)} {found : α → HostProg (CacheFilter × Action)} (same : f.requestId = request)
    (reads : read.Only SideCall) (finds : ∀ a, Follows (fating request) (HeadersFate request) (found a) {}) :
    Follows (fating request) (HeadersFate request) (f.lookUp lib rounds read found) {} := by
  refine follows_lookUp (fun ℓ => ℓ = {}) ?_ ?_ ?_ ?_ rfl
  · rintro _ rfl
    refine (fating_keeps.follows (reads.mono fun _ => aside_sideCall) {}).mono fun ℓ₁ r unchanged => ?_
    subst unchanged
    exact ⟨rfl, fun a _ => finds a⟩
  · rintro _ rfl
    have counts : (incrementStat .cacheMisses).Only Aside :=
      ⟨⟨fun _ _ => rfl, fun _ _ => trivial⟩, fun _ => trivial⟩
    exact fating_keeps.follows counts {}
  · rintro _ rfl
    refine (fating_setCalloutLock same).mono fun ℓ₁ status fate => ?_
    cases fate with
    | parked is => exact .parked is
    | other not =>
      match status, not with
      | .ok .addedToWaitlist, not => exact absurd rfl not
      | .ok .lockAcquired, _ => exact fating_doAuthCall same
      | .ok .responseCameFirst, _ => rfl
      | .error e, _ => exact fating_inRequestFailure
  · rintro _ rfl
    exact fating_inRequestFailure

theorem fating_lookupApplication {lib : ThirdParty} {rounds : Nat} {f : CacheFilter}
    (same : f.requestId = request) :
    Follows (fating request) (HeadersFate request) (f.lookupApplication lib rounds) {} := by
  rw [lookupApplication_eq]
  exact fating_lookUp same (only_getApplicationFromCache f.state.cacheKey) fun _ => fating_cacheHitOrFail

theorem fating_onHttpRequestHeaders {lib : ThirdParty} {rounds : Nat} {f : CacheFilter}
    {headers : Str → Option Str} :
    Follows (fating f.requestId) (HeadersFate f.requestId) (f.onHttpRequestHeaders lib rounds headers) {} := by
  unfold CacheFilter.onHttpRequestHeaders
  cases CacheFilter.getRequestData lib headers with
  | error e =>
    refine fating_aside ⟨⟨fun _ _ => rfl, fun _ _ => trivial⟩, fun _ => trivial⟩ fun _ => ?_
    refine ⟨trivial, fun _ ℓ' known => ?_⟩
    cases fating_next.mp known
    exact .disposed
  | ok data =>
    cases kind : data.appId with
    | userKey userKey =>
      simp only [kind]
      rw [onUserKey_eq]
      exact fating_lookUp rfl (only_getAppIdFromCache userKey) fun _ => fating_lookupApplication rfl
    | appId _ _ =>
      simp only [kind]
      exact fating_lookupApplication rfl

/-! What a callback leaves among the waiting contexts -/

/-- The waiting contexts, with one put among them. -/
def parkedIn (waiting : Nat → Nat → Option CacheFilter) : Option CacheFilter → Nat → Nat → Option CacheFilter
  | none => waiting
  | some w => Function.update waiting w.rootId (Function.update (waiting w.rootId) w.contextId (some w))

variable {h h' : Host} {t : List HostEvent}

theorem parkedIn_note {waiting : Nat → Nat → Option CacheFilter} {c : HostCall}
    (inv : h.waiting = parkedIn waiting ℓ.parked) (may : MayPark request ℓ c) :
    (Host.exec c h).2.waiting = parkedIn waiting (ℓ.note ⟨c, (Host.exec c h).1⟩).parked := by
  cases c with
  | insertWaitingContext w =>
    rw [may.1] at inv
    simp only [Host.exec, Fate.note, parkedIn, inv]
  | removeWaitingContext => exact may.elim
  | dispatchHttpCall call =>
    have same : (ℓ.note ⟨.dispatchHttpCall call, h.dispatch⟩).parked = ℓ.parked := by
      cases h.dispatch <;> rfl
    exact inv.trans (congrArg (parkedIn waiting) same.symm)
  | _ => exact inv

theorem fate_onHttpRequestHeaders {lib : ThirdParty} {rounds : Nat} {f f' : CacheFilter}
    {headers : Str → Option Str} {action : Action}
    (run : (f.onHttpRequestHeaders lib rounds headers).run Host.exec h = ⟨t, .done (f', action), h'⟩) :
    HeadersFate f.requestId (t.foldl Fate.note {}) (f', action) ∧
      h'.waiting = parkedIn h.waiting (t.foldl Fate.note {}).parked := by
  have preserved : ∀ s ℓ c, s.waiting = parkedIn h.waiting ℓ.parked → (fating f.requestId).may ℓ c →
      ∃ ℓ', (fating f.requestId).next ℓ c (Host.exec c s).1 = some ℓ' ∧
        (Host.exec c s).2.waiting = parkedIn h.waiting ℓ'.parked :=
    fun _ _ _ inv may => ⟨_, fating_next.mpr rfl, parkedIn_note inv may⟩
  obtain ⟨ℓ', tracked, inv, fate⟩ := fating_onHttpRequestHeaders.run preserved (rfl : h.waiting = _)
  rw [run] at tracked inv fate
  cases (folding_track.mp tracked).2
  exact ⟨fate, inv⟩

/-! The later callbacks dispose of the request that they are for. -/

theorem handleAuthResponse_disposes {f f' : CacheFilter} {response : AuthorizationStatus}
    (path : Prog.Path (f.handleAuthResponse response) t (.done (f', .ok ()))) : Disposes t := by
  have follows : Follows (disposing fun _ => True) (AuthEnds f response) (f.handleAuthResponse response) {} :=
    disposing_handleAuthResponse
  have ends := (disposing_path (fun _ _ bad => bad) follows path).2 _ rfl
  have released := released_ofTrace (t := t)
  have answered := answered_ofTrace (t := t)
  generalize Disposal.ofTrace t = disposal at ends released answered
  cases ends with
  | limited => exact Or.inr (answered.mp rfl)
  | released => exact Or.inl (released.mp rfl)

theorem Disposes.append_left {t₁ t₂ : List HostEvent} (disposes : Disposes t₁) : Disposes (t₁ ++ t₂) :=
  any_isDisposal.mp (by rw [List.any_append, any_isDisposal.mpr disposes, Bool.true_or])

theorem Disposes.append_right {t₁ t₂ : List HostEvent} (disposes : Disposes t₂) : Disposes (t₁ ++ t₂) :=
  any_isDisposal.mp (by rw [List.any_append, any_isDisposal.mpr disposes, Bool.or_true])

theorem failAnd_disposes {α : Type} {f : CacheFilter} {next : CacheFilter → HostProg α} {a : α}
    (path : Prog.Path (f.requestProcessFailure >>= next) t (.done a)) : Disposes t := by
  obtain ⟨t₁, t₂, _, rfl, failed, _⟩ := Prog.path_bind_done path
  exact Disposes.append_left (Or.inl (requestProcessFailure_releases failed))

theorem onAuthorization_disposes {f : CacheFilter} {authorization : Authorization}
    {r : CacheFilter × Option WaiterAction} (path : Prog.Path (f.onAuthorization authorization) t (.done r)) :
    Disposes t := by
  cases authorization with
  | error code => exact failAnd_disposes path
  | status response =>
    unfold CacheFilter.onAuthorization at path
    dsimp only at path
    split at path
    · obtain ⟨t₁, t₂, result, rfl, handled, later⟩ := Prog.path_bind_done path
      match result, handled, later with
      | (f', .ok ()), handled, _ => exact (handleAuthResponse_disposes handled).append_left
      | (f', .error e), _, later => exact Disposes.append_right (failAnd_disposes later)
    · obtain ⟨t₁, t₂, _, rfl, _, later⟩ := Prog.path_bind_done path
      refine Disposes.append_right ?_
      cases reason : response.reason with
      | none =>
        rw [reason] at later
        cases later
      | some body =>
        rw [reason] at later
        cases later with
        | next => exact Or.inr ⟨403, some body, List.mem_cons_self⟩

theorem onHttpCallResponse_disposes {f f' : CacheFilter} {response : CallResponse}
    (path : Prog.Path (f.onHttpCallResponse response) t (.done f')) : Disposes t := by
  unfold CacheFilter.onHttpCallResponse at path
  cases is : response.status with
  | none =>
    rw [is] at path
    cases path
  | some status =>
    rw [is] at path
    obtain ⟨t₁, t₂, result, rfl, called, _⟩ := Prog.path_bind_done path
    refine Disposes.append_left ?_
    unfold CacheFilter.onCallResult at called
    split at called
    · match response.body, called with
      | some .notUtf8, called => cases called
      | some (.parsed authorization), called => exact onAuthorization_disposes called
      | some .unparsable, called | none, called => exact failAnd_disposes called
    · obtain ⟨t₃, t₄, _, rfl, _, failed⟩ := Prog.path_bind_done called
      exact Disposes.append_right (failAnd_disposes failed)

/-! A waiter that is woken -/

/-- The callout has succeeded, and what the waiter looks up is not there. -/
def SharedData.misses (d : SharedData) (context : CacheFilter) : WaiterAction → Bool
  | .handleCacheHit _ => (d.applicationOf context.state.cacheKey).isNone
  | .handleFailure _ => false

theorem reads_undisposed {t : List HostEvent} (reads : Reads t) : t.any isDisposal = false := by
  refine List.any_eq_false.mpr fun e member => ?_
  obtain ⟨key, is⟩ := reads e member
  obtain ⟨c, r⟩ := e
  cases is
  simp [isDisposal, isAnswer, isRelease]

/-- A waiter is disposed of, unless it misses its application. -/
theorem wakeWaiter_disposal {context : CacheFilter} {action : WaiterAction}
    (run : (CacheFilterRoot.wakeWaiter context action).run Host.exec h = ⟨t, .done (), h'⟩) :
    t.any isDisposal = !h.shared.misses context action := by
  cases action with
  | handleFailure contextId =>
    have path := Prog.run_path Host.exec (CacheFilterRoot.wakeWaiter context (.handleFailure contextId)) h
    rw [run] at path
    exact any_isDisposal.mpr (failAnd_disposes path)
  | handleCacheHit =>
    have resumed := resumed_resumeCacheHit context h
    have ran : (CacheFilterRoot.resumeCacheHit context).run Host.exec h = ⟨t, .done (), h'⟩ := run
    rw [ran] at resumed
    unfold SharedData.misses
    cases found : h.shared.applicationOf context.state.cacheKey with
    | none =>
      rw [found] at resumed
      obtain ⟨reading, reads, same⟩ := resumed
      cases same
      exact reads_undisposed reads
    | some app =>
      rw [found] at resumed
      obtain ⟨reading, w, cas, _, same⟩ := resumed
      have path := Prog.run_path Host.exec (CacheFilterRoot.waiterCacheHit w app cas) h
      cases hits : (CacheFilterRoot.waiterCacheHit w app cas).run Host.exec h with
      | mk trace rest state =>
        rw [hits] at same path
        cases same
        exact any_isDisposal.mpr (Disposes.append_right (Or.inl (waiterCacheHit_releases path)))

theorem waiting_wakeWaiter {context : CacheFilter} {action : WaiterAction}
    {waiting : Nat → Nat → Option CacheFilter} :
    Triple Host.exec (fun h => h.waiting = waiting) (CacheFilterRoot.wakeWaiter context action) fun _ h =>
      h.waiting = waiting := by
  refine triple_only (only_wakeWaiter action) fun c h call same => ?_
  have answer : AnswerCall context.state.cacheKey c := by
    cases call with
    | hit hit => exact .hit hit
    | giveUp failure => exact .giveUp failure
  exact (waiting_answerCall answer).trans same

/-- The waiter that a root would wake, and how. -/
def Host.woken (h : Host) (root : CacheFilterRoot) (queueId : Nat) : Option (CacheFilter × WaiterAction) :=
  match (h.queues queueId).head? with
  | some (.waiterAction action) => (h.waiting root.id action.contextId).map fun context => (context, action)
  | _ => none

theorem waits_of_woken {root : CacheFilterRoot} {queueId : Nat} {context : CacheFilter} {action : WaiterAction}
    (woken : h.woken root queueId = some (context, action)) :
    h.waiting root.id action.contextId = some context := by
  unfold Host.woken at woken
  split at woken
  · obtain ⟨found, waits, same⟩ := Option.map_eq_some_iff.mp woken
    cases same
    exact waits
  · cases woken

/-- The callback of a queue disposes of the waiter, unless it misses its
application, and removes it. Where it wakes nobody, it does nothing. -/
theorem onQueueReady_woken {root : CacheFilterRoot} {queueId : Nat}
    (run : (root.onQueueReady queueId).run Host.exec h = ⟨t, .done (), h'⟩) :
    (h.woken root queueId = none → t.any isDisposal = false ∧ h'.waiting = h.waiting) ∧
      ∀ context action, h.woken root queueId = some (context, action) →
        t.any isDisposal = (!h.shared.misses context action) ∧
          h'.waiting = Function.update h.waiting root.id
            (Function.update (h.waiting root.id) action.contextId none) := by
  unfold CacheFilterRoot.onQueueReady dequeueSharedQueue ask Prog.perform at run
  simp only [Prog.call_bind, Prog.done_bind, Prog.run, Host.exec] at run
  unfold Host.woken
  cases head : (h.queues queueId).head? with
  | none =>
    rw [head] at run
    cases run
    exact ⟨fun _ => ⟨rfl, rfl⟩, by rintro _ _ ⟨⟩⟩
  | some item =>
    rw [head] at run
    cases item with
    | message =>
      cases run
      exact ⟨fun _ => ⟨rfl, rfl⟩, by rintro _ _ ⟨⟩⟩
    | waiterAction action =>
      unfold CacheFilterRoot.resumeWaiter ask Prog.perform at run
      simp only [Prog.call_bind, Prog.done_bind, Prog.run, Host.exec] at run
      dsimp only
      cases waits : h.waiting root.id action.contextId with
      | none =>
        rw [waits] at run
        cases run
        exact ⟨fun _ => ⟨rfl, rfl⟩, by rintro _ _ ⟨⟩⟩
      | some context =>
        rw [waits] at run
        refine ⟨by rintro ⟨⟩, ?_⟩
        rintro _ _ ⟨⟩
        simp only [Prog.run, Host.exec] at run
        let taken : Host := { h with queues := Function.update h.queues queueId (h.queues queueId).tail }
        let removing : HostProg Unit := .call (.removeWaitingContext root.id action.contextId) .done
        cases later : (CacheFilterRoot.wakeWaiter context action >>= fun _ => removing).run Host.exec taken with
        | mk t₁ rest state =>
          rw [later] at run
          cases run
          obtain ⟨t₂, t₃, _, woken, first, second, rfl⟩ := Prog.run_bind_inv later
          simp only [removing, Prog.run, Host.exec] at second
          cases second
          have disposal : t₂.any isDisposal = !h.shared.misses context action :=
            wakeWaiter_disposal (h := taken) first
          have kept : woken.waiting = h.waiting := waiting_wakeWaiter.run (s := taken) rfl first
          refine ⟨?_, ?_⟩
          · simp only [List.any_cons, List.any_append, List.any_nil, disposal]
            simp [isDisposal, isAnswer, isRelease]
          · simp only [kept]

/-! Runs -/

/-- A callback, with the world that it finds. -/
abbrev Visit := World × Delivery

def asks (request : RequestId) : Visit → Bool
  | (_, .requestHeaders _ _ f _) => f.requestId == request
  | _ => false

/-- The request that the callback is for. -/
def about : Visit → Option RequestId
  | (_, .requestHeaders _ _ f _) => some f.requestId
  | (_, .callResponse flight _) => some flight.context.requestId
  | (w, .queueReady root queueId) => (w.host.woken root queueId).map fun waiter => (root.id, waiter.2.contextId)
  | (_, .surroundings) => none

/-- A request is answered or released, or the callback of its headers lets it proceed. -/
def disposes : Visit → Bool
  | (w, .requestHeaders lib rounds f headers) =>
    let ran := (f.onHttpRequestHeaders lib rounds headers).run Host.exec w.host
    ran.trace.any isDisposal || ran.rest.result.map Prod.snd == some .proceed
  | (w, .callResponse flight response) =>
    ((flight.context.onHttpCallResponse response).run Host.exec w.host).trace.any isDisposal
  | (w, .queueReady root queueId) => ((root.onQueueReady queueId).run Host.exec w.host).trace.any isDisposal
  | (_, .surroundings) => false

def settles (request : RequestId) (visit : Visit) : Bool := about visit == some request && disposes visit

/-- The waiter is sent into the cache hit flow, and misses its application there. -/
def strands (request : RequestId) : Visit → Bool
  | (w, .queueReady root queueId) => (w.host.woken root queueId).any fun waiter =>
    (root.id, waiter.2.contextId) == request && w.host.shared.misses waiter.1 waiter.2
  | _ => false

/-- The callback is run, and a new request is not among the waiting contexts. -/
def Happens (w : World) (visit : Visit) (w' : World) : Prop :=
  visit.1 = w ∧ Delivers w visit.2 w' ∧ ∀ lib rounds f headers, visit.2 = .requestHeaders lib rounds f headers →
    w.host.waiting f.rootId f.contextId = none

/-- The calls that are out for the request, and the waits of its own. -/
def inHand (request : RequestId) (w : World) : Nat :=
  w.flights.countP (fun flight => flight.context.requestId == request) +
    (w.host.waiting request.1 request.2).isSome.toNat

variable {w w' : World}

/-- What is found under a request after its place was overwritten. -/
theorem update_requestId {α : Type} (g : Nat → Nat → α) (rootId contextId : Nat) (value : α)
    (request : RequestId) :
    Function.update g rootId (Function.update (g rootId) contextId value) request.1 request.2 =
      if (rootId, contextId) = request then value else g request.1 request.2 := by
  obtain ⟨r, c⟩ := request
  have same : r = rootId ∧ c = contextId ↔ (rootId, contextId) = (r, c) :=
    (and_congr eq_comm eq_comm).trans (Iff.of_eq (Prod.mk.injEq ..)).symm
  exact (update_update g rootId contextId value r c).trans (if_congr same rfl rfl)

/-- A request is in hand, or it is disposed of. -/
theorem balance_requestHeaders {lib : ThirdParty} {rounds : Nat} {f : CacheFilter} {headers : Str → Option Str}
    (happens : Happens w (w, .requestHeaders lib rounds f headers) w') (request : RequestId) :
    inHand request w + (f.requestId == request).toNat = inHand request w' +
      (f.requestId == request && disposes (w, .requestHeaders lib rounds f headers)).toNat := by
  obtain ⟨_, delivers, new⟩ := happens
  have absent := new lib rounds f headers rfl
  have disposal : ∀ {t f' action h}, (f.onHttpRequestHeaders lib rounds headers).run Host.exec w.host =
      ⟨t, .done (f', action), h⟩ → disposes (w, .requestHeaders lib rounds f headers) =
        ((t.foldl Fate.note {}).disposed || action == .proceed) := by
    intro t f' action h run
    simp only [disposes, run, Fate.disposed_foldl]
    rfl
  cases delivers with
  | @called _ _ _ _ t f' action h run out =>
    have isOut := (Fate.out_foldl t).mpr out
    obtain ⟨fate, waiting⟩ := fate_onHttpRequestHeaders run
    rw [disposal run]
    dsimp only [inHand]
    rw [waiting, List.countP_cons]
    generalize t.foldl Fate.note {} = ℓ at fate isOut
    cases fate with
    | out same =>
      have proceeds : (Action.pause == Action.proceed) = false := rfl
      simp only [parkedIn, same, proceeds, Bool.or_self, Bool.and_false, Bool.toNat_false]
      cases f.requestId == request <;> simp
      omega
    | disposed | proceeds | parked => cases isOut
  | @settled _ _ _ _ t f' action h run silent =>
    have notOut := (Fate.out_foldl t).not.mpr silent
    obtain ⟨fate, waiting⟩ := fate_onHttpRequestHeaders run
    rw [disposal run]
    dsimp only [inHand]
    rw [waiting]
    generalize t.foldl Fate.note {} = ℓ at fate notOut
    cases fate with
    | disposed | proceeds => simp [parkedIn]
    | @parked _ parked same =>
      -- the place was empty before, as the request is new
      have proceeds : (Action.pause == Action.proceed) = false := rfl
      have place : (parked.rootId, parked.contextId) = f.requestId := same
      simp only [parkedIn, update_requestId, place, proceeds, Bool.or_self, Bool.and_false, Bool.toNat_false]
      by_cases own : f.requestId = request
      · subst own
        simp [CacheFilter.requestId, absent]
      · simp [own]
    | out => exact absurd rfl notOut

/-- The response to a call disposes of its request. -/
theorem balance_callResponse {flight : Flight} {response : CallResponse}
    (happens : Happens w (w, .callResponse flight response) w') (request : RequestId) :
    inHand request w = inHand request w' +
      (flight.context.requestId == request && disposes (w, .callResponse flight response)).toNat := by
  obtain ⟨_, delivers, _⟩ := happens
  cases delivers with
  | @responded _ _ before after t f' h split run =>
    have path := Prog.run_path Host.exec (flight.context.onHttpCallResponse response) w.host
    rw [run] at path
    have disposal : disposes (w, .callResponse flight response) = true := by
      simp only [disposes, run]
      exact any_isDisposal.mpr (onHttpCallResponse_disposes path)
    have kept : h.waiting = w.host.waiting := waiting_onHttpCallResponse.run (s := w.host) rfl run
    simp only [disposal, inHand, split, kept, List.countP_append, List.countP_cons, Bool.and_true]
    cases flight.context.requestId == request <;> simp
    omega

/-- The callback of a queue disposes of the waiter, or strands it. -/
theorem balance_queueReady {root : CacheFilterRoot} {queueId : Nat}
    (happens : Happens w (w, .queueReady root queueId) w') (request : RequestId) :
    inHand request w = inHand request w' + (settles request (w, .queueReady root queueId)).toNat +
      (strands request (w, .queueReady root queueId)).toNat := by
  obtain ⟨_, delivers, _⟩ := happens
  cases delivers with
  | @served _ _ t h run =>
    obtain ⟨nobody_, somebody⟩ := onQueueReady_woken run
    have disposal : disposes (w, .queueReady root queueId) = t.any isDisposal := by simp only [disposes, run]
    simp only [settles, about, strands, disposal, inHand]
    cases woken : w.host.woken root queueId with
    | none =>
      rw [(nobody_ woken).2]
      simp
    | some waiter =>
      obtain ⟨context, action⟩ := waiter
      obtain ⟨disposed, waiting⟩ := somebody context action woken
      have waits := waits_of_woken woken
      rw [waiting, update_requestId, disposed]
      by_cases own : (root.id, action.contextId) = request
      · subst own
        cases missed : w.host.shared.misses context action <;> simp [waits, missed]
      · have other : ((root.id, action.contextId) == request) = false := beq_eq_false_iff_ne.mpr own
        simp [own, other]

theorem balance_happens {visit : Visit} (happens : Happens w visit w') (request : RequestId) :
    inHand request w + (asks request visit).toNat =
      inHand request w' + (settles request visit).toNat + (strands request visit).toNat := by
  obtain ⟨found, d⟩ := visit
  obtain rfl : found = w := happens.1
  cases d with
  | requestHeaders lib rounds f headers => exact balance_requestHeaders happens request
  | callResponse flight response => exact balance_callResponse happens request
  | queueReady root queueId => exact balance_queueReady happens request
  | surroundings =>
    obtain ⟨_, delivers, _⟩ := happens
    cases delivers with
    | moved env =>
      obtain ⟨clock, dispatch, rfl⟩ := env
      rfl

/-- Nothing is disposed of by a callback that is for nobody. -/
theorem about_of_disposes {visit : Visit} (happens : Happens w visit w') (disposed : disposes visit = true) :
    (about visit).isSome := by
  obtain ⟨found, d⟩ := visit
  obtain rfl : found = w := happens.1
  cases d with
  | requestHeaders | callResponse => rfl
  | surroundings => cases disposed
  | queueReady root queueId =>
    obtain ⟨_, delivers, _⟩ := happens
    cases delivers with
    | @served _ _ t h run =>
      simp only [disposes, run] at disposed
      cases woken : found.host.woken root queueId with
      | some waiter => simp [about, woken]
      | none =>
        rw [((onQueueReady_woken run).1 woken).1] at disposed
        cases disposed

/-- The books of a run: for each request, those in hand and those that are asked
are in hand later, or one callback disposes of them, or they are woken where
their application is not to be found. Every disposal is in the books of the
request that the callback is for. -/
theorem requests_accounted {visits : List Visit} (run : Steps Happens w visits w') :
    (∀ request, inHand request w + visits.countP (asks request) =
      inHand request w' + visits.countP (settles request) + visits.countP (strands request)) ∧
    ∀ visit ∈ visits, disposes visit = true → (about visit).isSome :=
  ⟨fun request => run.balance fun _ _ _ happens => balance_happens happens request,
    run.each fun _ _ _ happens => about_of_disposes happens⟩

/-! A request that waits for the response of another -/

def secondVisits : List Visit :=
  [(⟨threadsHost, []⟩, .requestHeaders hitLib 3 (hitFilter 1) hitHeaders),
    (askingWorld, .requestHeaders hitLib 3 (hitFilter 2) hitHeaders),
    (parkingWorld, .callResponse askingFlight (callResponse "200" (fiveHits true 2))),
    (answeringWorld, .queueReady ⟨2, {}⟩ 7)]

def wakingWorld : World := ⟨wakingRun.state, []⟩

theorem secondVisits_run : Steps Happens ⟨threadsHost, []⟩ secondVisits wakingWorld := by
  refine .next ⟨rfl, askingWorld_delivers, ?_⟩ (.next ⟨rfl, parkingWorld_delivers, ?_⟩
    (.next ⟨rfl, answeringWorld_attends.1, by rintro _ _ _ _ ⟨⟩⟩
      (.next ⟨rfl, .served rfl, by rintro _ _ _ _ ⟨⟩⟩ .stop)))
  · rintro _ _ _ _ ⟨⟩
    rfl
  · rintro _ _ _ _ ⟨⟩
    rfl

theorem requests_accounted_second :
    inHand (2, 2) ⟨threadsHost, []⟩ + secondVisits.countP (asks (2, 2)) =
      inHand (2, 2) wakingWorld + secondVisits.countP (settles (2, 2)) + secondVisits.countP (strands (2, 2)) :=
  (requests_accounted secondVisits_run).1 (2, 2)

end ThreescaleCache
