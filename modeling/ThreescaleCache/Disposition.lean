import ThreescaleCache.CacheHitRules
import ThreescaleCache.Interaction.Folding

namespace ThreescaleCache
open Interaction

/-! What the callbacks that concern a request do with it: it may be answered
with a local response, and it may be released. -/

/-- How a callback has disposed of the request, and what it has met: a limit
check that failed, an error of the cache hit flow, and the message that the
callout of a waiter has failed, whose configuration `denies` tells of.
`retrying` tells that the application is to be read again. -/
structure Disposal where
  answered : Bool := false
  released : Bool := false
  limited : Bool := false
  failed : Bool := false
  retrying : Bool := false
  told : Bool := false
  givenUp : Bool := false
  denies : Bool := false
  handedOn : Bool := false
deriving DecidableEq

namespace Disposal

def note (ℓ : Disposal) : HostEvent → Disposal
  | ⟨.sendHttpResponse .., _⟩ => { ℓ with answered := true }
  | ⟨.resumeHttpRequest, _⟩ => { ℓ with released := true }
  | ⟨.limitChecked (.ok (.rateLimited _)), _⟩ => { ℓ with limited := true }
  | ⟨.limitChecked (.error .durationOverflow), _⟩ => { ℓ with failed := true }
  | ⟨.limitChecked (.error (.cacheUpdateFail _)), _⟩ => { ℓ with retrying := true }
  | ⟨.getSharedData _, .ok (some (.application _), some _)⟩ => { ℓ with retrying := false }
  | ⟨.getSharedData _, _⟩ => { ℓ with retrying := false, failed := ℓ.failed || ℓ.retrying }
  | ⟨.resolveSharedQueue _, none⟩ => { ℓ with failed := true }
  | ⟨.getCurrentTime, none⟩ => { ℓ with failed := true }
  | ⟨.setSharedData _ (some (.appId _)) _, .error _⟩ => { ℓ with failed := true }
  | ⟨.dequeueSharedQueue _, .ok (some (.waiterAction (.handleFailure _)))⟩ => { ℓ with told := true }
  | ⟨.getWaitingContext .., some w⟩ => { ℓ with denies := ℓ.denies || w.config.failureModeDeny }
  | ⟨.setEffectiveContext _, .ok ()⟩ => { ℓ with givenUp := ℓ.givenUp || ℓ.told }
  | ⟨.dispatchHttpCall _, .ok _⟩ => { ℓ with handedOn := true }
  | ⟨.insertWaitingContext _, _⟩ => { ℓ with handedOn := true }
  | _ => ℓ

def ofTrace (t : List HostEvent) : Disposal := t.foldl note {}

/-- At least as much was met. -/
structure Le (ℓ ℓ' : Disposal) : Prop where
  limited : ℓ.limited = true → ℓ'.limited = true
  failed : ℓ.failed = true → ℓ'.failed = true
  givenUp : ℓ.givenUp = true → ℓ'.givenUp = true
  denies : ℓ.denies = true → ℓ'.denies = true

theorem le_note (ℓ : Disposal) (e : HostEvent) : ℓ.Le (ℓ.note e) := by
  constructor
  all_goals
    intro met
    unfold note
    split <;> simp only [met, Bool.true_or]

theorem answered_note (ℓ : Disposal) (e : HostEvent) :
    (ℓ.note e).answered = true ↔ ℓ.answered = true ∨ ∃ status body, e = ⟨.sendHttpResponse status body, ()⟩ := by
  obtain ⟨c, r⟩ := e
  cases c with
  | sendHttpResponse status body => exact iff_of_true rfl (Or.inr ⟨status, body, rfl⟩)
  | _ =>
    have same : (ℓ.note ⟨_, r⟩).answered = ℓ.answered := by
      unfold note
      split <;> first | rfl | (rename_i same; cases same)
    rw [same, or_iff_left]
    rintro ⟨_, _, ⟨⟩⟩

theorem released_note (ℓ : Disposal) (e : HostEvent) :
    (ℓ.note e).released = true ↔ ℓ.released = true ∨ e = ⟨.resumeHttpRequest, ()⟩ := by
  obtain ⟨c, r⟩ := e
  cases c with
  | resumeHttpRequest => exact iff_of_true rfl (Or.inr rfl)
  | _ =>
    have same : (ℓ.note ⟨_, r⟩).released = ℓ.released := by
      unfold note
      split <;> first | rfl | (rename_i same; cases same)
    rw [same, or_iff_left]
    rintro ⟨⟩

/-- The request is left to a response, or to a queue. -/
def HandsOn (e : HostEvent) : Prop :=
  (∃ call id, e = ⟨.dispatchHttpCall call, .ok id⟩) ∨ ∃ w, e = ⟨.insertWaitingContext w, ()⟩

theorem handedOn_note (ℓ : Disposal) (e : HostEvent) :
    (ℓ.note e).handedOn = true ↔ ℓ.handedOn = true ∨ HandsOn e := by
  obtain ⟨c, r⟩ := e
  cases c with
  | insertWaitingContext w => exact iff_of_true rfl (Or.inr (Or.inr ⟨w, rfl⟩))
  | dispatchHttpCall call =>
    cases r with
    | ok id => exact iff_of_true rfl (Or.inr (Or.inl ⟨call, id, rfl⟩))
    | error e =>
      refine (or_iff_left ?_).symm
      rintro (⟨_, _, ⟨⟩⟩ | ⟨_, ⟨⟩⟩)
  | _ =>
    have same : (ℓ.note ⟨_, r⟩).handedOn = ℓ.handedOn := by
      unfold note
      split <;> first | rfl | (rename_i same; cases same)
    rw [same, or_iff_left]
    rintro (⟨_, _, ⟨⟩⟩ | ⟨_, ⟨⟩⟩)

end Disposal

/-- Calls that neither dispose of a request nor decide about it. -/
def Neutral : HostCall → Prop
  | .getSharedData _ => True
  | .setSharedData _ (some (.appId _)) _ => False
  | .setSharedData .. => True
  | .enqueueSharedQueue .. => True
  | .incrementMetric .. => True
  | .removeWaitingContext .. => True
  | _ => False

/-- A call that answers or releases the request needs `bad`, if with it both are done. -/
def DisposingCall (bad : Disposal → Prop) (ℓ : Disposal) : HostCall → Prop
  | .sendHttpResponse .. => ℓ.released = true → bad ℓ
  | .resumeHttpRequest => ℓ.answered = true → bad ℓ
  | _ => True

noncomputable def disposing (bad : Disposal → Prop) : HostProtocol Disposal :=
  folding Disposal.note (fun _ => True) (DisposingCall bad)

variable {bad : Disposal → Prop} {ℓ : Disposal}

theorem disposing_next {ℓ' : Disposal} {c : HostCall} {r : c.Reply} :
    (disposing bad).next ℓ c r = some ℓ' ↔ ℓ' = ℓ.note ⟨c, r⟩ := by
  unfold disposing
  rw [folding_next, true_and]

theorem disposing_keeps :
    (disposing bad).Keeps (fun ℓ ℓ' => ℓ.retrying = false → ℓ' = ℓ) Neutral := by
  refine folding_keeps (fun _ _ => rfl) ?_ ?_ ?_
  · intro ℓ₁ ℓ₂ ℓ₃ first second quiet
    have same := first quiet
    subst same
    exact second quiet
  · intro ℓ c neutral
    cases c <;> trivial
  · intro ℓ c r neutral quiet
    cases c with
    | getSharedData key =>
      obtain ⟨answered, released, limited, failed, retrying, told, givenUp, denies, handedOn⟩ := ℓ
      cases quiet
      match r with
      | .ok (some (.application _), some _) => rfl
      | .error _ | .ok (none, _) | .ok (some (.appId _), _) | .ok (some (.calloutLock _), _)
      | .ok (some (.memoryCounter _), _) | .ok (some (.application _), none) =>
        simp only [Disposal.note, Bool.or_false]
    | setSharedData key value cas =>
      match value with
      | some (.appId _) => exact neutral.elim
      | none | some (.application _) | some (.calloutLock _) | some (.memoryCounter _) => rfl
    | enqueueSharedQueue | incrementMetric | removeWaitingContext => rfl
    | _ => exact neutral.elim

theorem neutral_sideCall {c : HostCall} (side : SideCall c) : Neutral c := by
  cases side <;> trivial

theorem neutral_filingCall {c : HostCall} (filing : FilingCall c) : Neutral c := by
  cases filing with
  | side side => exact neutral_sideCall side
  | application => trivial

theorem neutral_freeCall {key : Str} {c : HostCall} (free : FreeCall key c) : Neutral c := by
  cases free <;> trivial

/-- A sequence whose first part is neutral. -/
theorem disposing_neutral {α β : Type} {p : HostProg α} {next : α → HostProg β} {Q : Disposal → β → Prop}
    (neutral : p.Only Neutral) (quiet : ℓ.retrying = false) (rest : ∀ a, Follows (disposing bad) Q (next a) ℓ) :
    Follows (disposing bad) Q (p >>= next) ℓ := by
  refine follows_bind.mpr ((disposing_keeps.follows neutral ℓ).mono fun ℓ' a same => ?_)
  cases same quiet
  exact rest a

theorem disposing_silent {α : Type} {c : HostCall} {k : c.Reply → HostProg α} {Q : Disposal → α → Prop}
    (neutral : Neutral c) (quiet : ℓ.retrying = false) (rest : ∀ r, Follows (disposing bad) Q (k r) ℓ) :
    Follows (disposing bad) Q (.call c k) ℓ := by
  have only : (ask c).Only Neutral := ⟨neutral, fun _ => trivial⟩
  exact disposing_neutral only quiet rest

/-- After the application was looked for, with this outcome. -/
def Disposal.looked (ℓ : Disposal) : Except CacheError (Application × Nat) → Disposal
  | .ok _ => { ℓ with retrying := false }
  | .error _ => { ℓ with retrying := false, failed := ℓ.failed || ℓ.retrying }

theorem disposing_getApplicationFromCache (key : CacheKey) :
    Follows (disposing bad) (fun ℓ' r => ℓ' = ℓ.looked r) (getApplicationFromCache key) ℓ := by
  refine ⟨trivial, fun reply ℓ' known => ?_⟩
  cases disposing_next.mp known
  match reply with
  | .ok (some (.application app), some cas) => rfl
  | .error _ | .ok (none, _) | .ok (some (.application _), none) | .ok (some (.appId _), some _)
  | .ok (some (.appId _), none) | .ok (some (.calloutLock _), some _) | .ok (some (.calloutLock _), none)
  | .ok (some (.memoryCounter _), some _) | .ok (some (.memoryCounter _), none) => rfl

/-! The cache hit -/

variable {d : Bool}

/-- The cache hit flow answers the request, releases it, or fails without
having done either. -/
inductive HitEnds (f : CacheFilter) (d : Bool) : Disposal → CacheFilter × Except CacheHitError Unit → Prop
  | limited {f' : CacheFilter} (config : f'.config = f.config) :
    HitEnds f d { denies := d, limited := true, answered := true } (f', .ok ())
  | released {f' : CacheFilter} (config : f'.config = f.config) :
    HitEnds f d { denies := d, released := true } (f', .ok ())
  | failed {f' : CacheFilter} {e : CacheHitError} (config : f'.config = f.config) :
    HitEnds f d { denies := d, failed := true } (f', .error e)

theorem disposing_resume {α : Type} {a : α} {Q : Disposal → α → Prop} (unanswered : ℓ.answered = false)
    (here : Q { ℓ with released := true } a) :
    Follows (disposing bad) Q (resumeHttpRequest >>= fun _ => pure a) ℓ := by
  refine ⟨fun answered => ?_, fun _ ℓ' known => ?_⟩
  · rw [unanswered] at answered
    cases answered
  · cases disposing_next.mp known
    exact here

theorem disposing_onAuthorizedTry {f : CacheFilter} {queueId cas : Nat} {now : Duration}
    {info : RateLimitInfo} :
    Follows (disposing bad) (HitEnds f d) (f.onAuthorizedTry queueId now cas info) { denies := d } := by
  have stat : (onlyIf (cas = 0) (incrementStat .cachedApps)).Only Neutral :=
    only_onlyIf ⟨trivial, fun _ => trivial⟩
  have report : ((f.withRateLimitInfo info).reportToSingleton queueId now).Only Neutral :=
    only_reportToSingleton (fun _ _ => trivial) _ queueId now
  refine disposing_neutral stat rfl fun _ => ?_
  exact disposing_neutral report rfl fun _ => disposing_resume rfl (.released rfl)

theorem disposing_onRateLimitedTry {f : CacheFilter} {info : RateLimitInfo} :
    Follows (disposing bad) (HitEnds f d) (f.onRateLimitedTry info) { denies := d, limited := true } := by
  refine ⟨by rintro ⟨⟩, fun _ ℓ' known => ?_⟩
  cases disposing_next.mp known
  exact .limited rfl

theorem disposing_limitCheck {data : ThreescaleData} {app : Application} {cas : Nat} {now : Duration}
    (quiet : ℓ.retrying = false) :
    Follows (disposing bad) (fun ℓ' r => ℓ' = ℓ.note ⟨.limitChecked r, ()⟩)
      (limitCheckAndUpdateApplication data app cas now) ℓ := by
  refine (follows_limitChecked (disposing_keeps.mono fun _ => neutral_filingCall) fun _ _ => trivial).mono ?_
  intro ℓ' r fact
  obtain ⟨ℓ₁, same, known⟩ := fact
  cases same quiet
  exact disposing_next.mp known

theorem disposing_cacheHitTries {f : CacheFilter} {queueId tries cas : Nat} {now : Duration}
    {app : Application} :
    Follows (disposing bad) (HitEnds f d) (CacheFilter.cacheHitTries queueId now tries f app cas) { denies := d } := by
  let Inv (_ : Nat) (ℓ : Disposal) (_ : Application) (_ : Nat) : Prop := ℓ = { denies := d }
  have again : ∀ tries, Follows (disposing bad) (Refetched (Inv tries)
      fun ℓ e => HitEnds f d ℓ (f, .error (.appFetchFail e))) (getApplicationFromCache f.state.cacheKey)
      { denies := d, retrying := true } := by
    refine fun tries => (disposing_getApplicationFromCache _).mono fun ℓ fetched same => ?_
    subst same
    cases fetched with
    | ok found => rfl
    | error e => exact .failed rfl
  refine follows_cacheHitTries f Inv ?_ ?_ rfl
  · intro ℓ app cas same
    cases same
    exact disposing_resume rfl (.released rfl)
  · intro tries ℓ app cas same
    cases same
    refine (disposing_limitCheck rfl).mono fun ℓ result same => ?_
    subst same
    match result with
    | .ok (.authorized info) => exact disposing_onAuthorizedTry
    | .ok (.rateLimited info) => exact disposing_onRateLimitedTry
    | .error (.cacheUpdateFail _) => exact again tries
    | .error .durationOverflow => exact .failed rfl

theorem disposing_handleCacheHit {f : CacheFilter} {app : Application} {cas : Nat} :
    Follows (disposing bad) (HitEnds f d) (f.handleCacheHit app cas) { denies := d } := by
  rw [handleCacheHit_eq]
  refine disposing_neutral ⟨trivial, fun _ => trivial⟩ rfl fun _ => ⟨trivial, fun queue ℓ₁ known => ?_⟩
  cases disposing_next.mp known
  cases queue with
  | none => exact .failed rfl
  | some queueId =>
    refine ⟨trivial, fun reading ℓ₂ known => ?_⟩
    cases disposing_next.mp known
    cases reading with
    | none => exact .failed rfl
    | some now =>
      dsimp only
      cases addHierarchyToMetrics app.metricHierarchy f.state.reqData.metrics with
      | none => trivial
      | some metrics => exact disposing_cacheHitTries

/-! The callback of the headers -/

/-- Answered, and released by a resumption or by the result of the callback. -/
def Disposal.Both (ℓ : Disposal) (proceeds : Prop) : Prop :=
  ℓ.answered = true ∧ (ℓ.released = true ∨ proceeds)

/-- How the callback of the headers ends. A request that is handed on has
been left alone. -/
structure HeadersEnd (ℓ : Disposal) (r : CacheFilter × Action) : Prop where
  both : ℓ.Both (r.2 = .proceed) ↔ ℓ.limited = true
  handedOn : ℓ.handedOn = true → ℓ.answered = false ∧ ℓ.released = false ∧ r.2 = .pause

/-- Before anything is done: there may have been a failure. -/
inductive Untouched : Disposal → Prop
  | start : Untouched {}
  | failed : Untouched { failed := true }

theorem disposing_inRequestFailure {f : CacheFilter} (untouched : Untouched ℓ) :
    Follows (disposing bad) HeadersEnd f.inRequestFailure ℓ := by
  unfold CacheFilter.inRequestFailure
  dsimp only
  split
  · refine ⟨?_, fun _ ℓ' known => ?_⟩
    · cases untouched <;> rintro ⟨⟩
    · cases disposing_next.mp known
      cases untouched <;> exact ⟨by simp [Disposal.Both, Disposal.note], by rintro ⟨⟩⟩
  · cases untouched <;> exact ⟨by simp [Disposal.Both], by rintro ⟨⟩⟩

theorem disposing_cacheHitOrFail {f : CacheFilter} {app : Application} {cas : Nat} :
    Follows (disposing bad) HeadersEnd (f.cacheHitOrFail app cas) {} := by
  refine follows_bind.mpr (disposing_handleCacheHit.mono fun ℓ outcome ends => ?_)
  cases ends with
  | limited => exact ⟨by simp [Disposal.Both], by rintro ⟨⟩⟩
  | released => exact ⟨by simp [Disposal.Both], by rintro ⟨⟩⟩
  | failed => exact disposing_inRequestFailure .failed

theorem disposing_doAuthCall {lib : ThirdParty} {f : CacheFilter} :
    Follows (disposing bad) HeadersEnd (f.doAuthCall lib) {} := by
  unfold CacheFilter.doAuthCall
  split
  · exact disposing_inRequestFailure .start
  · refine ⟨trivial, fun reply ℓ' known => ?_⟩
    cases disposing_next.mp known
    cases reply with
    | ok token => exact ⟨by simp [Disposal.Both, Disposal.note], fun _ => ⟨rfl, rfl, rfl⟩⟩
    | error e => exact disposing_inRequestFailure .start

/-- What trying for the lock comes to. -/
inductive LockEnds : Disposal → Except UniqueCalloutError SetCalloutLockStatus → Prop
  | acquired : LockEnds {} (.ok .lockAcquired)
  | cameFirst : LockEnds {} (.ok .responseCameFirst)
  | waits : LockEnds { handedOn := true } (.ok .addedToWaitlist)
  | failed {ℓ : Disposal} {e : UniqueCalloutError} (untouched : Untouched ℓ) : LockEnds ℓ (.error e)

theorem disposing_setCalloutLockLoop (context : CacheFilter) (key : Str) (waiter : CalloutWaiter)
    (rounds : Nat) (seen : Option Nat) :
    Follows (disposing bad) LockEnds (setCalloutLockLoop context key waiter rounds seen) {} := by
  have silent : ∀ {c : HostCall}, Neutral c → Follows (disposing bad) (fun ℓ _ => ℓ = {}) (ask c) {} :=
    fun neutral => disposing_silent neutral rfl fun _ => rfl
  refine follows_setCalloutLockLoop (silent trivial) (fun v cas => silent trivial) ?_ ?_ rounds seen
  · refine ⟨trivial, fun _ ℓ' known => ?_⟩
    cases disposing_next.mp known
    exact .waits
  · intro status settled
    match status with
    | .ok .lockAcquired => exact .acquired
    | .ok .responseCameFirst => exact .cameFirst
    | .ok .addedToWaitlist => exact absurd rfl settled
    | .error e => exact .failed .start

theorem disposing_setCalloutLock (rounds : Nat) (f : CacheFilter) :
    Follows (disposing bad) LockEnds (setCalloutLock rounds f) {} := by
  refine ⟨trivial, fun queue ℓ' known => ?_⟩
  cases disposing_next.mp known
  cases queue with
  | none => exact .failed .failed
  | some queueId => exact disposing_setCalloutLockLoop f _ _ rounds none

theorem disposing_lookUp {ε α : Type} {lib : ThirdParty} {rounds : Nat} {f : CacheFilter}
    {read : HostProg (Except ε α)} {found : α → HostProg (CacheFilter × Action)} (reads : read.Only SideCall)
    (finds : ∀ a, Follows (disposing bad) HeadersEnd (found a) {}) :
    Follows (disposing bad) HeadersEnd (f.lookUp lib rounds read found) {} := by
  refine follows_lookUp (fun ℓ => ℓ = {}) ?_ ?_ ?_ ?_ rfl
  · rintro _ rfl
    refine (disposing_keeps.follows (reads.mono fun _ => neutral_sideCall) {}).mono fun ℓ' r same => ?_
    cases same rfl
    exact ⟨rfl, fun a _ => finds a⟩
  · rintro _ rfl
    refine ⟨trivial, fun _ ℓ' known => ?_⟩
    cases disposing_next.mp known
    rfl
  · rintro _ rfl
    refine (disposing_setCalloutLock rounds f).mono fun ℓ status ends => ?_
    cases ends with
    | acquired => exact disposing_doAuthCall
    | waits => exact ⟨by simp [Disposal.Both], fun _ => ⟨rfl, rfl, rfl⟩⟩
    | cameFirst => rfl
    | failed untouched => exact disposing_inRequestFailure untouched
  · rintro _ rfl
    exact disposing_inRequestFailure .start

theorem disposing_lookupApplication {lib : ThirdParty} {rounds : Nat} {f : CacheFilter} :
    Follows (disposing bad) HeadersEnd (f.lookupApplication lib rounds) {} := by
  rw [lookupApplication_eq]
  exact disposing_lookUp (only_getApplicationFromCache f.state.cacheKey) fun _ => disposing_cacheHitOrFail

theorem disposing_onUserKey {lib : ThirdParty} {rounds : Nat} {f : CacheFilter} {userKey : UserKey} :
    Follows (disposing bad) HeadersEnd (f.onUserKey lib rounds userKey) {} := by
  rw [onUserKey_eq]
  exact disposing_lookUp (only_getAppIdFromCache userKey) fun _ => disposing_lookupApplication

theorem disposing_onHttpRequestHeaders {lib : ThirdParty} {rounds : Nat} {f : CacheFilter}
    {headers : Str → Option Str} :
    Follows (disposing bad) HeadersEnd (f.onHttpRequestHeaders lib rounds headers) {} := by
  unfold CacheFilter.onHttpRequestHeaders
  cases CacheFilter.getRequestData lib headers with
  | error e =>
    refine disposing_neutral ⟨trivial, fun _ => trivial⟩ rfl fun _ => ?_
    refine ⟨by rintro ⟨⟩, fun _ ℓ' known => ?_⟩
    cases disposing_next.mp known
    exact ⟨by simp [Disposal.Both, Disposal.note], by rintro ⟨⟩⟩
  | ok data =>
    cases kind : data.appId with
    | userKey userKey =>
      simp only [kind]
      exact disposing_onUserKey
    | appId id key =>
      simp only [kind]
      exact disposing_lookupApplication

/-! The callback of the response -/

/-- The response is not handled, whatever the state of the cache. -/
def Unhandled (response : CallResponse) : Prop :=
  response.status = some timeoutStatus ∨ match response.body with
    | none => True
    | some .notUtf8 => False
    | some .unparsable => True
    | some (.parsed (.error _)) => True
    | some (.parsed (.status a)) => (a.isAuthorized || a.usageReports.isSome) = true ∧ rebuilt a = none

/-- How a callback ends that comes after that of the headers. -/
structure LaterEnds (bad : Disposal → Prop) (ℓ : Disposal) : Prop where
  both : ℓ.Both False ↔ bad ℓ
  quiet : ℓ.retrying = false

/-- After a failure in processing: in `failure_mode_deny` the request is
answered and then released. -/
def Disposal.abandoned (ℓ : Disposal) (deny : Bool) : Disposal := { ℓ with answered := deny, released := true }

theorem disposing_requestProcessFailure {f : CacheFilter} (unanswered : ℓ.answered = false)
    (unreleased : ℓ.released = false)
    (allowed : f.config.failureModeDeny = true → bad { ℓ with answered := true }) :
    Follows (disposing bad) (fun ℓ' _ => ℓ' = ℓ.abandoned f.config.failureModeDeny) f.requestProcessFailure ℓ := by
  unfold CacheFilter.requestProcessFailure onlyIf
  dsimp only [CacheFilter.withRateLimitInfo]
  cases deny : f.config.failureModeDeny with
  | true =>
    refine ⟨?_, fun _ ℓ' known => ⟨fun _ => ?_, fun _ ℓ'' known' => ?_⟩⟩
    · intro released
      rw [unreleased] at released
      cases released
    · cases disposing_next.mp known
      exact allowed deny
    · cases disposing_next.mp known
      cases disposing_next.mp known'
      rfl
  | false =>
    refine disposing_resume unanswered ?_
    simp only [Disposal.abandoned, ← unanswered]

/-- The end of handling a response with reports, or of an authorized one. -/
inductive AuthEnds (f : CacheFilter) (response : AuthorizationStatus) :
    Disposal → CacheFilter × Except AuthResponseError Unit → Prop
  | limited {f' : CacheFilter} (formed : rebuilt response ≠ none) :
      AuthEnds f response { limited := true, answered := true } (f', .ok ())
  | released {f' : CacheFilter} (formed : rebuilt response ≠ none) :
      AuthEnds f response { released := true } (f', .ok ())
  | unformed {f' : CacheFilter} {e : AuthResponseError} (config : f'.config = f.config)
      (unformed : rebuilt response = none) : AuthEnds f response {} (f', .error e)
  | failed {f' : CacheFilter} {e : AuthResponseError} (config : f'.config = f.config) :
      AuthEnds f response { failed := true } (f', .error e)

theorem disposing_handleAuthResponse {f : CacheFilter} {response : AuthorizationStatus} :
    Follows (disposing bad) (AuthEnds f response) (f.handleAuthResponse response) {} := by
  unfold CacheFilter.handleAuthResponse
  cases ids : CacheFilter.authResponseIds response with
  | error e => exact .unformed rfl (by simp only [rebuilt, ids])
  | ok found =>
    obtain ⟨appKeys, appId, serviceId⟩ := found
    have recorded : Follows (disposing bad) (fun ℓ r => r.1.config = f.config ∧
        ((r.2 = .ok () ∧ ℓ = {}) ∨ ∃ e, r.2 = .error e ∧ ℓ = { failed := true })) (f.recordAppId appId) {} := by
      unfold CacheFilter.recordAppId
      split
      · refine ⟨trivial, fun reply ℓ' known => ?_⟩
        cases disposing_next.mp known
        cases reply with
        | ok => exact ⟨rfl, Or.inl ⟨rfl, rfl⟩⟩
        | error e => exact ⟨rfl, Or.inr ⟨_, rfl, rfl⟩⟩
      · exact ⟨rfl, Or.inl ⟨rfl, rfl⟩⟩
    refine follows_bind.mpr (recorded.mono fun ℓ outcome fact => ?_)
    obtain ⟨f', result⟩ := outcome
    obtain ⟨config, ⟨same, rfl⟩ | ⟨e, same, rfl⟩⟩ := fact
    · cases same
      dsimp only
      cases formed : CacheFilter.authResponseApplication response appKeys appId serviceId with
      | none => exact .unformed config ((rebuilt_eq ids).trans formed)
      | some app =>
        have some_ : rebuilt response ≠ none := by simp [rebuilt, ids, formed]
        refine follows_bind.mpr (disposing_handleCacheHit.mono fun ℓ outcome ends => ?_)
        cases ends with
        | limited => exact .limited some_
        | released => exact .released some_
        | failed config' => exact .failed (config'.trans config)
    · cases same
      exact .failed config

/-- The response is answered and released if it fails in `failure_mode_deny`. -/
def FailsDenied (f : CacheFilter) (response : CallResponse) (ℓ : Disposal) : Prop :=
  f.config.failureModeDeny = true ∧ (Unhandled response ∨ ℓ.failed = true)

/-- A failure of which the cause is known. -/
theorem disposing_failAnd {f f' : CacheFilter} {response : CallResponse} (action : Option WaiterAction)
    (config : f'.config = f.config) (untouched : Untouched ℓ)
    (cause : Unhandled response ∨ ℓ.failed = true) :
    Follows (disposing (FailsDenied f response)) (fun ℓ' _ => LaterEnds (FailsDenied f response) ℓ')
      (f'.requestProcessFailure >>= fun f => pure (f, action)) ℓ := by
  have facts : ℓ.answered = false ∧ ℓ.released = false ∧ ℓ.retrying = false := by
    cases untouched <;> exact ⟨rfl, rfl, rfl⟩
  obtain ⟨unanswered, unreleased, quiet⟩ := facts
  refine follows_bind.mpr ((disposing_requestProcessFailure unanswered unreleased ?_).mono fun ℓ' _ same => ?_)
  · intro deny
    exact ⟨config ▸ deny, cause⟩
  · subst same
    refine ⟨?_, quiet⟩
    simp only [Disposal.Both, Disposal.abandoned, FailsDenied, config, cause, true_or, and_true]

theorem disposing_onAuthorization {f : CacheFilter} {status : Str} {authorization : Authorization}
    (notTimeout : status ≠ timeoutStatus) :
    Follows (disposing (FailsDenied f ⟨some status, some (.parsed authorization)⟩))
      (fun ℓ' _ => LaterEnds (FailsDenied f ⟨some status, some (.parsed authorization)⟩) ℓ')
      (f.onAuthorization authorization) {} := by
  cases authorization with
  | error code => exact disposing_failAnd none rfl .start (Or.inl (Or.inr trivial))
  | status response =>
    have handled : ∀ {ℓ : Disposal}, ¬Unhandled ⟨some status, some (.parsed (.status response))⟩ →
        ℓ.failed = false → ℓ.retrying = false → ¬ℓ.Both False →
        LaterEnds (FailsDenied f ⟨some status, some (.parsed (.status response))⟩) ℓ := by
      intro ℓ handled unfailed quiet not
      refine ⟨iff_of_false not fun fails => ?_, quiet⟩
      rcases fails.2 with unhandled | failed
      · exact handled unhandled
      · rw [unfailed] at failed
        cases failed
    unfold CacheFilter.onAuthorization
    dsimp only
    split
    · rename_i taken
      have formed_ : rebuilt response ≠ none → ¬Unhandled ⟨some status, some (.parsed (.status response))⟩ := by
        rintro some_ (timeout | ⟨_, none_⟩)
        · exact notTimeout (Option.some.inj timeout)
        · exact some_ none_
      refine follows_bind.mpr (disposing_handleAuthResponse.mono fun ℓ outcome ends => ?_)
      cases ends with
      | limited formed => exact handled (formed_ formed) rfl rfl (by simp [Disposal.Both])
      | released formed => exact handled (formed_ formed) rfl rfl (by simp [Disposal.Both])
      | unformed config none_ => exact disposing_failAnd _ config .start (Or.inl (Or.inr ⟨taken, none_⟩))
      | failed config => exact disposing_failAnd _ config .failed (Or.inr rfl)
    · rename_i refused
      have refused_ : ¬Unhandled ⟨some status, some (.parsed (.status response))⟩ := by
        rintro (timeout | ⟨taken, _⟩)
        · exact notTimeout (Option.some.inj timeout)
        · exact refused taken
      refine disposing_neutral ⟨trivial, fun _ => trivial⟩ rfl fun _ => ?_
      cases response.reason with
      | none => trivial
      | some reason =>
        refine ⟨by rintro ⟨⟩, fun _ ℓ' known => ?_⟩
        cases disposing_next.mp known
        exact handled refused_ rfl rfl (by simp [Disposal.Both, Disposal.note])

theorem disposing_onHttpCallResponse {f : CacheFilter} {response : CallResponse} :
    Follows (disposing (FailsDenied f response)) (fun ℓ _ => LaterEnds (FailsDenied f response) ℓ)
      (f.onHttpCallResponse response) {} := by
  obtain ⟨status, body⟩ := response
  unfold CacheFilter.onHttpCallResponse
  cases status with
  | none => trivial
  | some status =>
    have result : Follows (disposing (FailsDenied f ⟨some status, body⟩))
        (fun ℓ _ => LaterEnds (FailsDenied f ⟨some status, body⟩) ℓ) (f.onCallResult status body) {} := by
      unfold CacheFilter.onCallResult
      split
      · rename_i notTimeout
        match body with
        | some .notUtf8 => trivial
        | some (.parsed authorization) => exact disposing_onAuthorization notTimeout
        | some .unparsable | none => exact disposing_failAnd _ rfl .start (Or.inl (Or.inr trivial))
      · rename_i timeout
        refine disposing_neutral ⟨trivial, fun _ => trivial⟩ rfl fun _ => ?_
        refine disposing_failAnd _ rfl .start (Or.inl (Or.inl ?_))
        rw [not_ne_iff.mp timeout]
    refine follows_bind.mpr (result.mono fun ℓ outcome ends => ?_)
    obtain ⟨f', action⟩ := outcome
    cases action with
    | none => exact ends
    | some action =>
      exact disposing_neutral ((only_freeCalloutLock _ action).mono fun _ => neutral_freeCall) ends.quiet
        fun _ => ends

/-! The callback of the queue -/

/-- A waiter is answered and released if it is rate-limited, and if it fails
in `failure_mode_deny`. -/
def WaiterFails (ℓ : Disposal) : Prop :=
  ℓ.limited = true ∨ (ℓ.denies = true ∧ (ℓ.givenUp = true ∨ ℓ.failed = true))

theorem disposing_waiterFailure {context : CacheFilter} (unanswered : ℓ.answered = false)
    (unreleased : ℓ.released = false) (quiet : ℓ.retrying = false) (unlimited : ℓ.limited = false)
    (denies : ℓ.denies = context.config.failureModeDeny) (cause : ℓ.givenUp = true ∨ ℓ.failed = true) :
    Follows (disposing WaiterFails) (fun ℓ' _ => LaterEnds WaiterFails ℓ')
      (context.requestProcessFailure >>= fun _ => pure ()) ℓ := by
  refine follows_bind.mpr ((disposing_requestProcessFailure unanswered unreleased ?_).mono fun ℓ' _ same => ?_)
  · intro deny
    exact Or.inr ⟨denies.trans deny, cause⟩
  · subst same
    refine ⟨?_, quiet⟩
    simp only [Disposal.Both, Disposal.abandoned, WaiterFails, unlimited, denies, cause, true_or, and_true,
      Bool.false_eq_true, false_or]

theorem disposing_lookupForWaiter {context : CacheFilter} :
    Follows (disposing WaiterFails) (fun ℓ _ => LaterEnds WaiterFails ℓ)
      (CacheFilterRoot.lookupForWaiter context) { denies := context.config.failureModeDeny } := by
  have quiet : LaterEnds WaiterFails { denies := context.config.failureModeDeny } :=
    ⟨by simp [Disposal.Both, WaiterFails], rfl⟩
  refine disposing_neutral ((only_getApplicationFromCache _).mono fun _ => neutral_sideCall) rfl fun found => ?_
  cases found with
  | error e => exact quiet
  | ok found =>
    refine follows_bind.mpr (disposing_handleCacheHit.mono fun ℓ outcome ends => ?_)
    cases ends with
    | limited =>
      refine ⟨fun _ => Or.inl rfl, fun _ ℓ' known => ?_⟩
      cases disposing_next.mp known
      exact ⟨by simp [Disposal.Both, WaiterFails, Disposal.note], rfl⟩
    | released =>
      refine ⟨by rintro ⟨⟩, fun _ ℓ' known => ?_⟩
      cases disposing_next.mp known
      exact ⟨by simp [Disposal.Both, WaiterFails, Disposal.note], rfl⟩
    | failed config =>
      exact disposing_waiterFailure rfl rfl rfl rfl (by rw [config]) (Or.inr rfl)

theorem disposing_resumeCacheHit {context : CacheFilter} :
    Follows (disposing WaiterFails) (fun ℓ _ => LaterEnds WaiterFails ℓ)
      (CacheFilterRoot.resumeCacheHit context) { denies := context.config.failureModeDeny } := by
  unfold CacheFilterRoot.resumeCacheHit
  split
  · refine disposing_neutral ((only_getAppIdFromCache _).mono fun _ => neutral_sideCall) rfl fun found => ?_
    cases found with
    | error e => exact ⟨by simp [Disposal.Both, WaiterFails], rfl⟩
    | ok appId => exact disposing_lookupForWaiter
  · exact disposing_lookupForWaiter

theorem disposing_resumeWaiter {root : CacheFilterRoot} {action : WaiterAction} {told : Bool}
    (tells : told = true ↔ ∃ id, action = .handleFailure id) :
    Follows (disposing WaiterFails) (fun ℓ _ => LaterEnds WaiterFails ℓ)
      (root.resumeWaiter action) { told := told } := by
  have removes : ∀ {ℓ}, LaterEnds WaiterFails ℓ → Follows (disposing WaiterFails)
      (fun ℓ _ => LaterEnds WaiterFails ℓ) (ask (.removeWaitingContext root.id action.contextId)) ℓ :=
    fun ends => disposing_silent trivial ends.quiet fun _ => ends
  have idle : ∀ {ℓ : Disposal}, ℓ.answered = false → ℓ.limited = false → ℓ.givenUp = false → ℓ.failed = false →
      ℓ.retrying = false → LaterEnds WaiterFails ℓ := by
    intro ℓ unanswered unlimited kept unfailed quiet
    exact ⟨by simp [Disposal.Both, WaiterFails, unanswered, unlimited, kept, unfailed], quiet⟩
  refine ⟨trivial, fun found ℓ₁ known => ?_⟩
  cases disposing_next.mp known
  cases found with
  | none => exact idle rfl rfl rfl rfl rfl
  | some context =>
    refine ⟨trivial, fun set ℓ₂ known => ?_⟩
    cases disposing_next.mp known
    cases set with
    | error e => exact removes (idle rfl rfl rfl rfl rfl)
    | ok =>
      cases action with
      | handleFailure id =>
        have given : told = true := tells.mpr ⟨id, rfl⟩
        subst given
        show Follows _ _ (CacheFilterRoot.wakeWaiter context (.handleFailure id) >>= _) _
        refine follows_bind.mpr (Follows.mono ?_ fun ℓ _ ends => removes ends)
        exact disposing_waiterFailure rfl rfl rfl rfl rfl (Or.inl rfl)
      | handleCacheHit id =>
        have kept : told = false := by
          refine Bool.eq_false_iff.mpr fun given => ?_
          obtain ⟨_, other⟩ := tells.mp given
          cases other
        subst kept
        show Follows _ _ (CacheFilterRoot.wakeWaiter context (.handleCacheHit id) >>= _) _
        exact follows_bind.mpr (disposing_resumeCacheHit.mono fun ℓ _ ends => removes ends)

theorem disposing_onQueueReady {root : CacheFilterRoot} {queueId : Nat} :
    Follows (disposing WaiterFails) (fun ℓ _ => LaterEnds WaiterFails ℓ) (root.onQueueReady queueId) {} := by
  have idle : LaterEnds WaiterFails {} := ⟨by simp [Disposal.Both, WaiterFails], rfl⟩
  refine ⟨trivial, fun item ℓ₁ known => ?_⟩
  cases disposing_next.mp known
  match item with
  | .error _ | .ok none | .ok (some (.message _)) => exact idle
  | .ok (some (.waiterAction (.handleFailure id))) =>
    exact disposing_resumeWaiter (iff_of_true rfl ⟨id, rfl⟩)
  | .ok (some (.waiterAction (.handleCacheHit id))) =>
    exact disposing_resumeWaiter (iff_of_false Bool.false_ne_true (by rintro ⟨_, ⟨⟩⟩))

/-! The life of a request -/

/-- The callback that follows on that of the headers. -/
inductive Later where
  | nothing
  | callResponse (f : CacheFilter) (response : CallResponse)
  | queueReady (w : CacheFilter)

/-- The calls of the callbacks that concern a request, what that of its
headers has returned so far, and whether the last one has ended. -/
structure Life where
  headers : List HostEvent
  action : Option Action
  later : Later
  rest : List HostEvent
  ended : Bool

/-- A response comes to a context with a call out, and a context that was
added to the waitlist is fetched by the callback of a queue. -/
inductive Lives (lib : ThirdParty) (rounds : Nat) (f : CacheFilter) (headers : Str → Option Str) : Life → Prop
  | asked {t q} (first : Prog.Path (f.onHttpRequestHeaders lib rounds headers) t q) :
      Lives lib rounds f headers ⟨t, q.result.map Prod.snd, .nothing, [], q.result.isSome⟩
  | responded {t f' action response t' q}
      (first : Prog.Path (f.onHttpRequestHeaders lib rounds headers) t (.done (f', action)))
      (out : ∃ call id, (⟨.dispatchHttpCall call, .ok id⟩ : HostEvent) ∈ t)
      (then_ : Prog.Path (f'.onHttpCallResponse response) t' q) :
      Lives lib rounds f headers ⟨t, some action, .callResponse f' response, t', q.result.isSome⟩
  | woken {t f' action w root queueId rootId contextId t' q}
      (first : Prog.Path (f.onHttpRequestHeaders lib rounds headers) t (.done (f', action)))
      (waits : (⟨.insertWaitingContext w, ()⟩ : HostEvent) ∈ t)
      (then_ : Prog.Path (CacheFilterRoot.onQueueReady root queueId) t' q)
      (fetched : (⟨.getWaitingContext rootId contextId, some w⟩ : HostEvent) ∈ t') :
      Lives lib rounds f headers ⟨t, some action, .queueReady w, t', q.result.isSome⟩

namespace Life

/-- The request is answered with a local response. -/
def Answered (life : Life) : Prop :=
  ∃ status body, (⟨.sendHttpResponse status body, ()⟩ : HostEvent) ∈ life.headers ++ life.rest

/-- The request is released, by a resumption or by the callback of its headers. -/
def Released (life : Life) : Prop :=
  (⟨.resumeHttpRequest, ()⟩ : HostEvent) ∈ life.headers ++ life.rest ∨ life.action = some .proceed

/-- The last callback takes a branch that answers and releases: a limit check
of the callback of the headers, or of a waiter, does not pass, or processing
fails in `failure_mode_deny`. -/
def TakesBadBranch (life : Life) : Prop :=
  match life.later with
  | .nothing => (Disposal.ofTrace life.headers).limited = true
  | .callResponse f response => FailsDenied f response (Disposal.ofTrace life.rest)
  | .queueReady _ => WaiterFails (Disposal.ofTrace life.rest)

end Life

theorem both_note {c : HostCall} {r : c.Reply} (mono : ∀ ℓ e, bad ℓ → bad (ℓ.note e))
    (fine : ℓ.Both False → bad ℓ) (allowed : DisposingCall bad ℓ c) (both : (ℓ.note ⟨c, r⟩).Both False) :
    bad (ℓ.note ⟨c, r⟩) := by
  refine mono _ _ ?_
  obtain ⟨answered, released | none_⟩ := both
  · rcases (ℓ.answered_note _).mp answered with answered | ⟨status, body, same⟩
    · rcases (ℓ.released_note _).mp released with released | same
      · exact fine ⟨answered, Or.inl released⟩
      · cases same
        exact allowed answered
    · cases same
      exact allowed released
  · exact none_.elim

/-- With all calls allowed, both are done only after something `bad`. -/
theorem both_bad {t : List HostEvent} (mono : ∀ ℓ e, bad ℓ → bad (ℓ.note e)) (fine : ℓ.Both False → bad ℓ)
    (allowed : ∀ before c r after, t = before ++ ⟨c, r⟩ :: after →
      DisposingCall bad (before.foldl Disposal.note ℓ) c) :
    (t.foldl Disposal.note ℓ).Both False → bad (t.foldl Disposal.note ℓ) := by
  induction t generalizing ℓ with
  | nil => exact fine
  | cons e t ih =>
    obtain ⟨c, r⟩ := e
    refine ih (both_note mono fine (allowed [] c r t rfl)) fun before c' r' after split => ?_
    exact allowed (⟨c, r⟩ :: before) c' r' after (by rw [split]; rfl)

/-- What following the protocol says of a path. -/
theorem disposing_path {α : Type} {p q : HostProg α} {Q : Disposal → α → Prop} {t : List HostEvent}
    (mono : ∀ ℓ e, bad ℓ → bad (ℓ.note e)) (follows : Follows (disposing bad) Q p {})
    (path : Prog.Path p t q) :
    ((Disposal.ofTrace t).Both False → bad (.ofTrace t)) ∧ ∀ a, q = .done a → Q (.ofTrace t) a := by
  obtain ⟨allowed, result⟩ := follows_folding_iff.mp follows t q path
  refine ⟨both_bad mono (fun both => by cases both.1) fun before c r after split => ?_, fun a same => ?_⟩
  · exact allowed before c r after split fun _ _ => trivial
  · exact result a same fun _ _ => trivial

theorem limited_mono (ℓ : Disposal) (e : HostEvent) (limited : ℓ.limited = true) : (ℓ.note e).limited = true :=
  (ℓ.le_note e).limited limited

theorem failsDenied_mono (f : CacheFilter) (response : CallResponse) (ℓ : Disposal) (e : HostEvent)
    (fails : FailsDenied f response ℓ) : FailsDenied f response (ℓ.note e) :=
  ⟨fails.1, fails.2.imp_right (ℓ.le_note e).failed⟩

theorem waiterFails_mono (ℓ : Disposal) (e : HostEvent) (fails : WaiterFails ℓ) : WaiterFails (ℓ.note e) := by
  have le := ℓ.le_note e
  exact fails.imp le.limited fun fact => ⟨le.denies fact.1, fact.2.imp le.givenUp le.failed⟩

theorem answered_ofTrace {t : List HostEvent} : (Disposal.ofTrace t).answered = true ↔
    ∃ status body, (⟨.sendHttpResponse status body, ()⟩ : HostEvent) ∈ t := by
  refine (foldl_known_iff (fun ℓ : Disposal => ℓ.answered = true) Disposal.answered_note).trans ?_
  constructor
  · rintro (never | ⟨_, member, status, body, rfl⟩)
    · cases never
    · exact ⟨status, body, member⟩
  · intro fact
    obtain ⟨status, body, member⟩ := fact
    exact Or.inr ⟨_, member, status, body, rfl⟩

theorem released_ofTrace {t : List HostEvent} : (Disposal.ofTrace t).released = true ↔
    (⟨.resumeHttpRequest, ()⟩ : HostEvent) ∈ t := by
  refine (foldl_known_iff (fun ℓ : Disposal => ℓ.released = true) Disposal.released_note).trans ?_
  simp

theorem handedOn_ofTrace {t : List HostEvent} {e : HostEvent} (member : e ∈ t) (handsOn : Disposal.HandsOn e) :
    (Disposal.ofTrace t).handedOn = true :=
  (foldl_known_iff (fun ℓ : Disposal => ℓ.handedOn = true) Disposal.handedOn_note).mpr
    (Or.inr ⟨e, member, handsOn⟩)

/-- Both answered and released. -/
def Life.Both (life : Life) : Prop := life.Answered ∧ life.Released

theorem both_iff {life : Life} : life.Both ↔
    (Disposal.ofTrace (life.headers ++ life.rest)).Both (life.action = some .proceed) := by
  unfold Life.Both Life.Answered Life.Released Disposal.Both
  rw [answered_ofTrace, released_ofTrace]

/-- After a request was handed on, it is the later callback that counts. -/
theorem both_handedOn {t t' : List HostEvent} {action : Action} {f : CacheFilter} {later : Later} {ended : Bool}
    (ends : HeadersEnd (.ofTrace t) (f, action)) (handedOn : (Disposal.ofTrace t).handedOn = true) :
    (Life.mk t (some action) later t' ended).Both ↔ (Disposal.ofTrace t').Both False := by
  obtain ⟨unanswered, unreleased, paused⟩ := ends.handedOn handedOn
  dsimp only at paused
  subst paused
  unfold Life.Both Life.Answered Life.Released Disposal.Both
  rw [← Bool.not_eq_true, answered_ofTrace] at unanswered
  rw [← Bool.not_eq_true, released_ofTrace] at unreleased
  rw [answered_ofTrace, released_ofTrace]
  simp only [List.mem_append, exists_or, unanswered, unreleased, false_or, Option.some.injEq, reduceCtorEq]

/-- What the calls of the headers' callback come to. -/
theorem headers_end {lib : ThirdParty} {rounds : Nat} {f : CacheFilter} {headers : Str → Option Str}
    {t : List HostEvent} {q : HostProg (CacheFilter × Action)}
    (path : Prog.Path (f.onHttpRequestHeaders lib rounds headers) t q) :
    ((Disposal.ofTrace t).Both False → (Disposal.ofTrace t).limited = true) ∧
      ∀ r, q = .done r → HeadersEnd (.ofTrace t) r := by
  have follows : Follows (disposing fun ℓ => ℓ.limited = true) HeadersEnd
      (f.onHttpRequestHeaders lib rounds headers) {} := disposing_onHttpRequestHeaders
  exact disposing_path limited_mono follows path

/-- A request is never both answered and released as long as no bad branch is
taken; and when the last callback has ended, it is exactly if one was. -/
theorem disposed_both_iff {lib : ThirdParty} {rounds : Nat} {f : CacheFilter} {headers : Str → Option Str}
    {life : Life} (lives : Lives lib rounds f headers life) :
    (life.Both → life.TakesBadBranch) ∧ (life.ended = true → (life.Both ↔ life.TakesBadBranch)) := by
  cases lives with
  | @asked t q first =>
    obtain ⟨never, ends⟩ := headers_end first
    have both : (Life.mk t (q.result.map Prod.snd) .nothing [] q.result.isSome).Both ↔
        (Disposal.ofTrace t).Both (q.result.map Prod.snd = some .proceed) := by
      rw [both_iff, List.append_nil]
    rw [both]
    cases q with
    | done r =>
      have iff_ : (Disposal.ofTrace t).Both (some r.2 = some .proceed) ↔ (Disposal.ofTrace t).limited = true := by
        rw [Option.some.injEq]
        exact (ends r rfl).both
      exact ⟨iff_.mp, fun _ => iff_⟩
    | trap | spin | call =>
      refine ⟨fun both => never ⟨both.1, both.2.imp_right ?_⟩, by rintro ⟨⟩⟩
      rintro ⟨⟩
  | @responded t f' action response t' q first out then_ =>
    obtain ⟨never, later⟩ := disposing_path (failsDenied_mono f' response) disposing_onHttpCallResponse then_
    obtain ⟨call, id, member⟩ := out
    have handedOn := handedOn_ofTrace member (Or.inl ⟨call, id, rfl⟩)
    rw [both_handedOn ((headers_end first).2 _ rfl) handedOn]
    refine ⟨never, fun ended => ?_⟩
    cases q with
    | done r => exact (later r rfl).both
    | trap | spin | call => cases ended
  | @woken t f' action w root queueId rootId contextId t' q first waits then_ fetched =>
    obtain ⟨never, later⟩ := disposing_path waiterFails_mono disposing_onQueueReady then_
    have handedOn := handedOn_ofTrace waits (Or.inr ⟨w, rfl⟩)
    rw [both_handedOn ((headers_end first).2 _ rfl) handedOn]
    refine ⟨never, fun ended => ?_⟩
    cases q with
    | done r => exact (later r rfl).both
    | trap | spin | call => cases ended

/-! Requests that find their application -/

def hitRequest (app : Application) : Prog.Ran HostCall HostCall.Reply Host (CacheFilter × Action) :=
  ((hitFilter 1).onHttpRequestHeaders hitLib 3 hitHeaders).run Host.exec (cachedHost app)

def hitLife (app : Application) : Life :=
  ⟨(hitRequest app).trace, (hitRequest app).rest.result.map Prod.snd, .nothing, [],
    (hitRequest app).rest.result.isSome⟩

theorem hitLife_lives (app : Application) : Lives hitLib 3 (hitFilter 1) hitHeaders (hitLife app) :=
  .asked (Prog.run_path Host.exec _ _)

/-- Without limits. -/
theorem disposed_both_unlimited :
    ((hitLife (cachedWith ∅)).Both → (hitLife (cachedWith ∅)).TakesBadBranch) ∧
      ((hitLife (cachedWith ∅)).ended = true →
        ((hitLife (cachedWith ∅)).Both ↔ (hitLife (cachedWith ∅)).TakesBadBranch)) :=
  disposed_both_iff (hitLife_lives (cachedWith ∅))

/-- No hits are left in the window of the day. -/
def exhausted : Application :=
  cachedWith ((∅ : HashMap UsageReport).insert "hits".toList
    { periodWindow := ⟨.fromSecs 950400, .fromSecs 1036800, .day⟩, leftHits := 0, maxValue := 10 })

/-- The request gets its 429, and the callback of its headers lets it proceed. -/
theorem not_disposed_limited :
    Lives hitLib 3 (hitFilter 1) hitHeaders (hitLife exhausted) ∧ (hitLife exhausted).Both := by
  have sent : ((hitLife exhausted).headers ++ (hitLife exhausted).rest)[5]? =
      some ⟨.sendHttpResponse 429 (some "Request rate-limited.\n".toList), ()⟩ := rfl
  exact ⟨hitLife_lives exhausted, ⟨429, _, List.mem_of_getElem? sent⟩, Or.inr rfl⟩

end ThreescaleCache
