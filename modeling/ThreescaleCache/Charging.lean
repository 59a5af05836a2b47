import ThreescaleCache.Disposition
import ThreescaleCache.Linearization

namespace ThreescaleCache
open Interaction

/-! What a request is charged in its life: a debit of the cached application,
and a message to the singleton. -/

/-- An application was stored. -/
def isDebit : HostEvent → Bool
  | ⟨.setSharedData _ (some (.application _)) _, .ok ()⟩ => true
  | _ => false

/-- The singleton was sent a message: its queue has taken it. -/
def isReport : HostEvent → Bool
  | ⟨.enqueueSharedQueue _ (.message _), .ok ()⟩ => true
  | _ => false

/-- The queue has refused a message. -/
def isRefusedReport : HostEvent → Bool
  | ⟨.enqueueSharedQueue _ (.message _), .error _⟩ => true
  | _ => false

/-- A message was sent or refused. -/
def isReporting (e : HostEvent) : Bool := isReport e || isRefusedReport e

def isAnswer : HostEvent → Bool
  | ⟨.sendHttpResponse .., _⟩ => true
  | _ => false

def isRelease : HostEvent → Bool
  | ⟨.resumeHttpRequest, _⟩ => true
  | _ => false

/-- The request is left to a response, or to a queue. -/
def isHandOn : HostEvent → Bool
  | ⟨.dispatchHttpCall _, .ok _⟩ => true
  | ⟨.insertWaitingContext _, _⟩ => true
  | _ => false

/-- The charges of a request so far, with the limit checks that it has passed and
the messages sent or refused for it, and what has become of it. -/
structure Charge where
  debits : Nat := 0
  passed : Nat := 0
  reports : Nat := 0
  answered : Bool := false
  released : Bool := false
  handedOn : Bool := false

namespace Charge

def note (ℓ : Charge) (e : HostEvent) : Charge where
  debits := ℓ.debits + (isDebit e).toNat
  passed := ℓ.passed + (isAuthorized e).toNat
  reports := ℓ.reports + (isReporting e).toNat
  answered := isAnswer e || ℓ.answered
  released := isRelease e || ℓ.released
  handedOn := isHandOn e || ℓ.handedOn

def ofTrace (t : List HostEvent) : Charge := t.foldl note {}

/-- At no time is a request charged twice, or reported before it has passed and
was debited. One that was answered is not charged, nor is one handed on. -/
structure Sound (ℓ : Charge) : Prop where
  once : ℓ.debits ≤ 1
  passed : ℓ.passed ≤ ℓ.debits
  reports : ℓ.reports ≤ ℓ.passed
  answered : ℓ.answered = true → ℓ.debits = 0
  handedOn : ℓ.handedOn = true → ℓ.debits = 0 ∧ ℓ.answered = false

/-- A callback ends with the charge complete, and with the request released if
it was charged. -/
structure Complete (ℓ : Charge) : Prop where
  passed : ℓ.passed = ℓ.debits
  reports : ℓ.reports = ℓ.debits
  released : 0 < ℓ.debits → ℓ.released = true

theorem sound_uncharged (answered released : Bool) : Sound { answered := answered, released := released } :=
  ⟨Nat.zero_le 1, Nat.le_refl 0, Nat.le_refl 0, fun _ => rfl, by rintro ⟨⟩⟩

theorem sound_handedOn : Sound { handedOn := true } :=
  ⟨Nat.zero_le 1, Nat.le_refl 0, Nat.le_refl 0, fun _ => rfl, fun _ => ⟨rfl, rfl⟩⟩

theorem sound_charged {passed reports : Nat} (released : Bool) (once : passed ≤ 1) (le : reports ≤ passed) :
    Sound { debits := 1, passed := passed, reports := reports, released := released } :=
  ⟨Nat.le_refl 1, once, le, by rintro ⟨⟩, by rintro ⟨⟩⟩

theorem complete_uncharged {ℓ : Charge} (debits : ℓ.debits = 0) (passed : ℓ.passed = 0) (reports : ℓ.reports = 0) :
    Complete ℓ :=
  ⟨passed.trans debits.symm, reports.trans debits.symm, fun some_ => absurd debits (Nat.pos_iff_ne_zero.mp some_)⟩

theorem foldl_note (ℓ : Charge) (t : List HostEvent) :
    (t.foldl note ℓ).debits = ℓ.debits + t.countP isDebit ∧
      (t.foldl note ℓ).passed = ℓ.passed + t.countP isAuthorized ∧
      (t.foldl note ℓ).reports = ℓ.reports + t.countP isReporting := by
  have toNat : ∀ b : Bool, b.toNat = if b = true then 1 else 0 := by decide
  induction t generalizing ℓ with
  | nil => exact ⟨rfl, rfl, rfl⟩
  | cons e t ih =>
    obtain ⟨debits, passed, reports⟩ := ih (ℓ.note e)
    rw [List.foldl_cons, debits, passed, reports]
    simp only [List.countP_cons, note, toNat]
    omega

end Charge

/-- Calls that have nothing to do with the charge. -/
def Incidental (c : HostCall) : Prop := ∀ (r : c.Reply) (ℓ : Charge), ℓ.note ⟨c, r⟩ = ℓ

noncomputable def charging : HostProtocol Charge :=
  folding Charge.note (fun _ => True) fun ℓ c => ∀ r, ℓ.Sound → (ℓ.note ⟨c, r⟩).Sound

variable {ℓ : Charge}

theorem charging_next {ℓ' : Charge} {c : HostCall} {r : c.Reply} :
    charging.next ℓ c r = some ℓ' ↔ ℓ' = ℓ.note ⟨c, r⟩ := by
  unfold charging
  rw [folding_next, true_and]

theorem charging_keeps : charging.Keeps (fun ℓ ℓ' => ℓ' = ℓ) Incidental := by
  refine folding_keeps (fun _ => rfl) (fun first second => second.trans first) ?_ fun ℓ c r none_ => none_ r ℓ
  intro ℓ c none_ r sound
  rw [none_]
  exact sound

theorem incidental_sideCall {c : HostCall} (side : SideCall c) : Incidental c := by
  cases side with
  | read key => exact fun _ _ => rfl
  | count size cas =>
    intro r _
    cases r <;> rfl

theorem incidental_freeCall {key : Str} {c : HostCall} (free : FreeCall key c) : Incidental c := by
  cases free with
  | read | notify => exact fun _ _ => rfl
  | erase =>
    intro r _
    cases r <;> rfl

/-- A sequence whose first part does not bear on the charge. -/
theorem charging_incidental {α β : Type} {p : HostProg α} {next : α → HostProg β} {Q : Charge → β → Prop}
    (none_ : p.Only Incidental) (rest : ∀ a, Follows charging Q (next a) ℓ) :
    Follows charging Q (p >>= next) ℓ := by
  refine follows_bind.mpr ((charging_keeps.follows none_ ℓ).mono fun ℓ' a same => ?_)
  subst same
  exact rest a

/-! The cache hit -/

/-- A limit check that passes has debited the application. -/
theorem charging_limitCheck {data : ThreescaleData} {app : Application} {cas : Nat} {now : Duration} :
    Follows charging (fun ℓ r => match r with
        | .ok (.authorized _) => ℓ = { debits := 1, passed := 1 }
        | _ => ℓ = {})
      (limitCheckAndUpdateApplication data app cas now) {} := by
  let Outcome (ℓ : Charge) (r : Except UpdateMetricsError RateLimitStatus) : Prop :=
    match r with
    | .ok (.authorized _) => ℓ = { debits := 1, passed := 1 }
    | _ => ℓ = {}
  have noted : ∀ r, (∀ info, r ≠ .ok (.authorized info)) → Follows charging Outcome (noteLimitCheck r) {} := by
    intro r not
    match r, not with
    | .ok (.authorized info), not => exact absurd rfl (not info)
    | .ok (.rateLimited _), _ | .error .durationOverflow, _ | .error (.cacheUpdateFail _), _ =>
      refine ⟨fun _ _ => Charge.sound_uncharged false false, fun _ ℓ' known => ?_⟩
      cases charging_next.mp known
      rfl
  have sides : Sides charging fun ℓ ℓ' => ℓ' = ℓ := .of_keeps (charging_keeps.mono fun _ => incidental_sideCall)
  refine follows_limitCheckAndUpdate sides ?_ ?_ ?_ ?_ ?_
  · rintro ℓ _ r rfl follows
    exact follows
  · exact fun _ => noted _ (by rintro _ ⟨⟩)
  · exact fun _ _ _ => noted _ (by rintro _ ⟨⟩)
  · exact fun _ _ _ _ => noted _ (by rintro _ ⟨⟩)
  · rintro app' info _ _ rfl
    refine ⟨fun r _ => ?_, fun r ℓ₂ known => ?_⟩
    · cases r with
      | ok => exact Charge.sound_charged false (Nat.zero_le 1) (Nat.le_refl 0)
      | error e => exact Charge.sound_uncharged false false
    · cases charging_next.mp known
      cases r with
      | ok =>
        refine ⟨fun _ _ => Charge.sound_charged false (Nat.le_refl 1) (Nat.zero_le 1), fun _ ℓ₃ known => ?_⟩
        cases charging_next.mp known
        rfl
      | error e => exact noted _ (by rintro _ ⟨⟩)

/-- How the cache hit flow ends: the request is charged, released or answered,
or nothing was done. -/
inductive HitCharge : Charge → CacheFilter × Except CacheHitError Unit → Prop
  | charged {f : CacheFilter} : HitCharge { debits := 1, passed := 1, reports := 1, released := true } (f, .ok ())
  | released {f : CacheFilter} : HitCharge { released := true } (f, .ok ())
  | limited {f : CacheFilter} : HitCharge { answered := true } (f, .ok ())
  | failed {f : CacheFilter} {e : CacheHitError} : HitCharge {} (f, .error e)

theorem charging_onAuthorizedTry {f : CacheFilter} {queueId cas : Nat} {now : Duration} {info : RateLimitInfo} :
    Follows charging HitCharge (f.onAuthorizedTry queueId now cas info) { debits := 1, passed := 1 } := by
  refine charging_incidental (only_onlyIf ⟨fun _ _ => rfl, fun _ => trivial⟩) fun _ => ?_
  have noted : ∀ r : Except Status Unit, isReporting ⟨.enqueueSharedQueue queueId (.message
      { updateCacheFromSingleton := f.state.updateCacheFromSingleton, data := f.state.reqData, reqTime := now }),
      r⟩ = true := by
    intro r
    cases r <;> rfl
  refine ⟨fun r _ => ?_, fun reply ℓ₁ known => ?_⟩
  · exact Charge.sound_charged false (Nat.le_refl 1) (Nat.le_of_eq (congrArg (0 + ·.toNat) (noted r)))
  cases charging_next.mp known
  have resumed : Follows charging HitCharge
      (resumeHttpRequest >>= fun _ => pure (f.withRateLimitInfo info, (.ok () : Except CacheHitError Unit)))
      { debits := 1, passed := 1, reports := 1 } := by
    refine ⟨fun _ _ => Charge.sound_charged true (Nat.le_refl 1) (Nat.le_refl 1), fun _ ℓ₂ known => ?_⟩
    cases charging_next.mp known
    exact .charged
  cases reply <;> exact resumed

theorem charging_cacheHitTries {f : CacheFilter} {queueId tries cas : Nat} {now : Duration} {app : Application} :
    Follows charging HitCharge (CacheFilter.cacheHitTries queueId now tries f app cas) {} := by
  let Inv (_ : Nat) (ℓ : Charge) (_ : Application) (_ : Nat) : Prop := ℓ = {}
  refine follows_cacheHitTries f Inv ?_ ?_ rfl
  · rintro _ app cas rfl
    refine ⟨fun _ _ => Charge.sound_uncharged false true, fun _ ℓ₁ known => ?_⟩
    cases charging_next.mp known
    exact .released
  · rintro tries _ app cas rfl
    refine charging_limitCheck.mono fun ℓ₁ result outcome => ?_
    match result, outcome with
    | .ok (.authorized info), same =>
      obtain rfl : ℓ₁ = { debits := 1, passed := 1 } := same
      exact charging_onAuthorizedTry
    | .ok (.rateLimited info), same =>
      obtain rfl : ℓ₁ = {} := same
      refine ⟨fun _ _ => Charge.sound_uncharged true false, fun _ ℓ₂ known => ?_⟩
      cases charging_next.mp known
      exact .limited
    | .error .durationOverflow, same =>
      obtain rfl : ℓ₁ = {} := same
      exact .failed
    | .error (.cacheUpdateFail _), same =>
      obtain rfl : ℓ₁ = {} := same
      have again := (only_getApplicationFromCache f.state.cacheKey).mono fun _ => incidental_sideCall
      refine (charging_keeps.follows again {}).mono fun ℓ₂ fetched same => ?_
      subst same
      cases fetched with
      | ok found => rfl
      | error e => exact .failed

theorem charging_handleCacheHit {f : CacheFilter} {app : Application} {cas : Nat} :
    Follows charging HitCharge (f.handleCacheHit app cas) {} := by
  rw [handleCacheHit_eq]
  refine charging_incidental ⟨fun _ _ => rfl, fun _ => trivial⟩ fun _ => ?_
  refine charging_incidental ⟨fun _ _ => rfl, fun _ => trivial⟩ fun queue => ?_
  cases queue with
  | none => exact .failed
  | some queueId =>
    refine charging_incidental ⟨fun _ _ => rfl, fun _ => trivial⟩ fun reading => ?_
    cases reading with
    | none => exact .failed
    | some now =>
      dsimp only
      cases addHierarchyToMetrics app.metricHierarchy f.state.reqData.metrics with
      | none => trivial
      | some metrics => exact charging_cacheHitTries

/-! The callback of the headers -/

theorem charging_inRequestFailure {f : CacheFilter} :
    Follows charging (fun ℓ _ => ℓ.Complete) f.inRequestFailure {} := by
  unfold CacheFilter.inRequestFailure
  dsimp only
  split
  · refine ⟨fun _ _ => Charge.sound_uncharged true false, fun _ ℓ₁ known => ?_⟩
    cases charging_next.mp known
    exact Charge.complete_uncharged rfl rfl rfl
  · exact Charge.complete_uncharged rfl rfl rfl

theorem HitCharge.complete {result : CacheFilter × Except CacheHitError Unit} (hit : HitCharge ℓ result) :
    ℓ.Complete := by
  cases hit with
  | charged => exact ⟨rfl, rfl, fun _ => rfl⟩
  | released | limited | failed => exact Charge.complete_uncharged rfl rfl rfl

theorem charging_cacheHitOrFail {f : CacheFilter} {app : Application} {cas : Nat} :
    Follows charging (fun ℓ _ => ℓ.Complete) (f.cacheHitOrFail app cas) {} := by
  refine follows_bind.mpr (charging_handleCacheHit.mono fun ℓ outcome hit => ?_)
  have complete := hit.complete
  cases hit with
  | charged | released | limited => exact complete
  | failed => exact charging_inRequestFailure

theorem charging_doAuthCall {lib : ThirdParty} {f : CacheFilter} :
    Follows charging (fun ℓ _ => ℓ.Complete) (f.doAuthCall lib) {} := by
  unfold CacheFilter.doAuthCall
  split
  · exact charging_inRequestFailure
  · refine ⟨fun reply _ => ?_, fun reply ℓ₁ known => ?_⟩
    · cases reply with
      | ok token => exact Charge.sound_handedOn
      | error e => exact Charge.sound_uncharged false false
    · cases charging_next.mp known
      cases reply with
      | ok token => exact Charge.complete_uncharged rfl rfl rfl
      | error e => exact charging_inRequestFailure

/-- Trying for the lock does not bear on the charge, unless the context waits. -/
theorem charging_setCalloutLock {rounds : Nat} {f : CacheFilter} :
    Follows charging (fun ℓ status => (status ≠ .ok .addedToWaitlist → ℓ = {}) ∧ ℓ.Complete)
      (setCalloutLock rounds f) {} := by
  have uncharged : (({} : Charge)).Complete := Charge.complete_uncharged rfl rfl rfl
  refine charging_incidental ⟨fun _ _ => rfl, fun _ => trivial⟩ fun queue => ?_
  cases queue with
  | none => exact ⟨fun _ => rfl, uncharged⟩
  | some queueId =>
    have quiet : ∀ {c : HostCall}, Incidental c → Follows charging (fun ℓ _ => ℓ = {}) (ask c) {} := by
      intro c none_
      have only : (ask c).Only Incidental := ⟨none_, fun _ => trivial⟩
      exact charging_keeps.follows only {}
    refine follows_setCalloutLockLoop (quiet fun _ _ => rfl) (fun v cas => quiet ?_) ?_ ?_ rounds none
    · intro r _
      cases r <;> rfl
    · refine ⟨fun _ _ => Charge.sound_handedOn, fun _ ℓ₁ known => ?_⟩
      cases charging_next.mp known
      exact ⟨fun other => absurd rfl other, Charge.complete_uncharged rfl rfl rfl⟩
    · exact fun _ _ => ⟨fun _ => rfl, uncharged⟩

theorem charging_lookUp {ε α : Type} {lib : ThirdParty} {rounds : Nat} {f : CacheFilter}
    {read : HostProg (Except ε α)} {found : α → HostProg (CacheFilter × Action)} (reads : read.Only SideCall)
    (finds : ∀ a, Follows charging (fun ℓ _ => ℓ.Complete) (found a) {}) :
    Follows charging (fun ℓ _ => ℓ.Complete) (f.lookUp lib rounds read found) {} := by
  refine follows_lookUp (fun ℓ => ℓ = {}) ?_ ?_ ?_ ?_ rfl
  · rintro _ rfl
    refine (charging_keeps.follows (reads.mono fun _ => incidental_sideCall) {}).mono fun ℓ₁ r same => ?_
    subst same
    exact ⟨rfl, fun a _ => finds a⟩
  · rintro _ rfl
    have counts : (incrementStat .cacheMisses).Only Incidental := ⟨fun _ _ => rfl, fun _ => trivial⟩
    exact charging_keeps.follows counts {}
  · rintro _ rfl
    refine charging_setCalloutLock.mono fun ℓ₁ status fact => ?_
    obtain ⟨same, complete⟩ := fact
    match status with
    | .ok .addedToWaitlist => exact complete
    | .ok .lockAcquired =>
      cases same (by rintro ⟨⟩)
      exact charging_doAuthCall
    | .ok .responseCameFirst => exact same (by rintro ⟨⟩)
    | .error e =>
      cases same (by rintro ⟨⟩)
      exact charging_inRequestFailure
  · rintro _ rfl
    exact charging_inRequestFailure

theorem charging_lookupApplication {lib : ThirdParty} {rounds : Nat} {f : CacheFilter} :
    Follows charging (fun ℓ _ => ℓ.Complete) (f.lookupApplication lib rounds) {} := by
  rw [lookupApplication_eq]
  exact charging_lookUp (only_getApplicationFromCache f.state.cacheKey) fun _ => charging_cacheHitOrFail

theorem charging_onHttpRequestHeaders {lib : ThirdParty} {rounds : Nat} {f : CacheFilter}
    {headers : Str → Option Str} :
    Follows charging (fun ℓ _ => ℓ.Complete) (f.onHttpRequestHeaders lib rounds headers) {} := by
  unfold CacheFilter.onHttpRequestHeaders
  cases CacheFilter.getRequestData lib headers with
  | error e =>
    refine charging_incidental ⟨fun _ _ => rfl, fun _ => trivial⟩ fun _ => ?_
    refine ⟨fun _ _ => Charge.sound_uncharged true false, fun _ ℓ₁ known => ?_⟩
    cases charging_next.mp known
    exact Charge.complete_uncharged rfl rfl rfl
  | ok data =>
    cases kind : data.appId with
    | userKey userKey =>
      simp only [kind]
      rw [onUserKey_eq]
      exact charging_lookUp (only_getAppIdFromCache userKey) fun _ => charging_lookupApplication
    | appId id key =>
      simp only [kind]
      exact charging_lookupApplication

/-! The callbacks of the response and of the queue -/

theorem charging_requestProcessFailure {f : CacheFilter} :
    Follows charging (fun ℓ _ => ℓ.Complete) f.requestProcessFailure {} := by
  unfold CacheFilter.requestProcessFailure onlyIf
  dsimp only [CacheFilter.withRateLimitInfo]
  cases f.config.failureModeDeny with
  | true =>
    refine ⟨fun _ _ => Charge.sound_uncharged true false, fun _ ℓ₁ known => ?_⟩
    cases charging_next.mp known
    refine ⟨fun _ _ => Charge.sound_uncharged true true, fun _ ℓ₂ known => ?_⟩
    cases charging_next.mp known
    exact Charge.complete_uncharged rfl rfl rfl
  | false =>
    refine ⟨fun _ _ => Charge.sound_uncharged false true, fun _ ℓ₁ known => ?_⟩
    cases charging_next.mp known
    exact Charge.complete_uncharged rfl rfl rfl

theorem charging_handleAuthResponse {f : CacheFilter} {response : AuthorizationStatus} :
    Follows charging (fun ℓ r => ℓ.Complete ∧ ∀ e, r.2 = .error e → ℓ = {}) (f.handleAuthResponse response) {} := by
  have uncharged : (({} : Charge)).Complete := Charge.complete_uncharged rfl rfl rfl
  unfold CacheFilter.handleAuthResponse
  cases CacheFilter.authResponseIds response with
  | error e => exact ⟨uncharged, fun _ _ => rfl⟩
  | ok ids =>
    obtain ⟨appKeys, appId, serviceId⟩ := ids
    have records : (f.recordAppId appId).Only Incidental := by
      unfold CacheFilter.recordAppId
      cases f.state.cacheKey.appId with
      | appId => trivial
      | userKey userKey =>
        refine ⟨fun r _ => by cases r <;> rfl, fun reply => ?_⟩
        cases reply <;> trivial
    refine charging_incidental records fun recorded => ?_
    match recorded with
    | (_, .error e) => exact ⟨uncharged, fun _ _ => rfl⟩
    | (f', .ok ()) =>
      dsimp only
      cases CacheFilter.authResponseApplication response appKeys appId serviceId with
      | none => exact ⟨uncharged, fun _ _ => rfl⟩
      | some app =>
        refine follows_bind.mpr (charging_handleCacheHit.mono fun ℓ₁ outcome hit => ?_)
        have complete := hit.complete
        cases hit with
        | charged | released | limited => exact ⟨complete, by rintro _ ⟨⟩⟩
        | failed => exact ⟨complete, fun _ _ => rfl⟩

theorem charging_onAuthorization {f : CacheFilter} {authorization : Authorization} :
    Follows charging (fun ℓ _ => ℓ.Complete) (f.onAuthorization authorization) {} := by
  cases authorization with
  | error code => exact follows_bind.mpr (charging_requestProcessFailure.mono fun _ _ complete => complete)
  | status response =>
    unfold CacheFilter.onAuthorization
    dsimp only
    split
    · refine follows_bind.mpr (charging_handleAuthResponse.mono fun ℓ₁ outcome fact => ?_)
      obtain ⟨complete, failed⟩ := fact
      match outcome with
      | (f', .ok ()) => exact complete
      | (f', .error e) =>
        cases failed e rfl
        exact follows_bind.mpr (charging_requestProcessFailure.mono fun _ _ complete => complete)
    · refine charging_incidental ⟨fun _ _ => rfl, fun _ => trivial⟩ fun _ => ?_
      cases response.reason with
      | none => trivial
      | some reason =>
        refine ⟨fun _ _ => Charge.sound_uncharged true false, fun _ ℓ₁ known => ?_⟩
        cases charging_next.mp known
        exact Charge.complete_uncharged rfl rfl rfl

theorem charging_onHttpCallResponse {f : CacheFilter} {response : CallResponse} :
    Follows charging (fun ℓ _ => ℓ.Complete) (f.onHttpCallResponse response) {} := by
  unfold CacheFilter.onHttpCallResponse
  cases response.status with
  | none => trivial
  | some status =>
    have fails : ∀ action : Option WaiterAction, Follows charging (fun ℓ _ => ℓ.Complete)
        (f.requestProcessFailure >>= fun f => pure (f, action)) {} :=
      fun _ => follows_bind.mpr (charging_requestProcessFailure.mono fun _ _ complete => complete)
    have result : Follows charging (fun ℓ _ => ℓ.Complete) (f.onCallResult status response.body) {} := by
      unfold CacheFilter.onCallResult
      split
      · match response.body with
        | some .notUtf8 => trivial
        | some (.parsed authorization) => exact charging_onAuthorization
        | some .unparsable | none => exact fails _
      · exact charging_incidental ⟨fun _ _ => rfl, fun _ => trivial⟩ fun _ => fails _
    refine follows_bind.mpr (result.mono fun ℓ₁ outcome complete => ?_)
    obtain ⟨f', action⟩ := outcome
    cases action with
    | none => exact complete
    | some action =>
      have frees := (only_freeCalloutLock f.state.cacheKey action).mono fun _ => incidental_freeCall
      exact charging_incidental frees fun _ => complete

/-- A waiter that was served, or failed, is resumed once more. -/
theorem charging_waiterCacheHit {context : CacheFilter} {app : Application} {cas : Nat} :
    Follows charging (fun ℓ _ => ℓ.Complete) (CacheFilterRoot.waiterCacheHit context app cas) {} := by
  refine follows_bind.mpr (charging_handleCacheHit.mono fun ℓ outcome hit => ?_)
  cases hit with
  | charged =>
    refine ⟨fun _ _ => Charge.sound_charged true (Nat.le_refl 1) (Nat.le_refl 1), fun _ ℓ₁ known => ?_⟩
    cases charging_next.mp known
    exact ⟨rfl, rfl, fun _ => rfl⟩
  | released =>
    refine ⟨fun _ _ => Charge.sound_uncharged false true, fun _ ℓ₁ known => ?_⟩
    cases charging_next.mp known
    exact Charge.complete_uncharged rfl rfl rfl
  | limited =>
    refine ⟨fun _ _ => Charge.sound_uncharged true true, fun _ ℓ₁ known => ?_⟩
    cases charging_next.mp known
    exact Charge.complete_uncharged rfl rfl rfl
  | failed => exact follows_bind.mpr (charging_requestProcessFailure.mono fun _ _ complete => complete)

theorem charging_lookupForWaiter {context : CacheFilter} :
    Follows charging (fun ℓ _ => ℓ.Complete) (CacheFilterRoot.lookupForWaiter context) {} := by
  have reads := (only_getApplicationFromCache context.state.cacheKey).mono fun _ => incidental_sideCall
  refine charging_incidental reads fun found => ?_
  cases found with
  | ok found => exact charging_waiterCacheHit
  | error e => exact Charge.complete_uncharged rfl rfl rfl

theorem charging_wakeWaiter {context : CacheFilter} {action : WaiterAction} :
    Follows charging (fun ℓ _ => ℓ.Complete) (CacheFilterRoot.wakeWaiter context action) {} := by
  cases action with
  | handleFailure id => exact follows_bind.mpr (charging_requestProcessFailure.mono fun _ _ complete => complete)
  | handleCacheHit id =>
    show Follows charging _ (CacheFilterRoot.resumeCacheHit context) {}
    unfold CacheFilterRoot.resumeCacheHit
    split
    · rename_i userKey _
      refine charging_incidental ((only_getAppIdFromCache userKey).mono fun _ => incidental_sideCall) fun found => ?_
      cases found with
      | ok appId => exact charging_lookupForWaiter
      | error e => exact Charge.complete_uncharged rfl rfl rfl
    · exact charging_lookupForWaiter

theorem charging_onQueueReady {root : CacheFilterRoot} {queueId : Nat} :
    Follows charging (fun ℓ _ => ℓ.Complete) (root.onQueueReady queueId) {} := by
  have uncharged : (({} : Charge)).Complete := Charge.complete_uncharged rfl rfl rfl
  refine charging_incidental ⟨fun _ _ => rfl, fun _ => trivial⟩ fun item => ?_
  match item with
  | .error _ | .ok none | .ok (some (.message _)) => exact uncharged
  | .ok (some (.waiterAction action)) =>
    refine charging_incidental ⟨fun _ _ => rfl, fun _ => trivial⟩ fun found => ?_
    cases found with
    | none => exact uncharged
    | some context =>
      have removes : ∀ {ℓ : Charge}, ℓ.Complete → Follows charging (fun ℓ _ => ℓ.Complete)
          (ask (.removeWaitingContext root.id action.contextId)) ℓ := by
        intro ℓ complete
        have only : (ask (.removeWaitingContext root.id action.contextId)).Only Incidental :=
          ⟨fun _ _ => rfl, fun _ => trivial⟩
        refine (charging_keeps.follows only ℓ).mono fun ℓ₁ _ same => ?_
        subst same
        exact complete
      refine charging_incidental ⟨fun r _ => by cases r <;> rfl, fun _ => trivial⟩ fun set => ?_
      cases set with
      | error e => exact removes uncharged
      | ok => exact follows_bind.mpr (charging_wakeWaiter.mono fun _ _ complete => removes complete)

/-! The life of a request -/

/-- All calls of the callbacks that concern the request. -/
def Life.calls (life : Life) : List HostEvent := life.headers ++ life.rest

/-- A request is debited at most once, and reported to the singleton at most once,
after it was debited. One that the filter has answered is not charged. When its
last callback has ended, a request was reported, or its message refused, exactly
if it was debited, and it has been released if so. -/
structure ChargedOnce (life : Life) : Prop where
  once : life.calls.countP isDebit ≤ 1
  passed : life.calls.countP isAuthorized ≤ life.calls.countP isDebit
  reported : life.calls.countP isReport + life.calls.countP isRefusedReport ≤ life.calls.countP isAuthorized
  answered : life.Answered → life.calls.countP isDebit = 0
  ended : life.ended = true → life.calls.countP isAuthorized = life.calls.countP isDebit ∧
    life.calls.countP isReport + life.calls.countP isRefusedReport = life.calls.countP isDebit ∧
    (0 < life.calls.countP isDebit → life.Released)

/-- No message is both sent and refused. -/
theorem countP_isReporting (t : List HostEvent) :
    t.countP isReporting = t.countP isReport + t.countP isRefusedReport := by
  induction t with
  | nil => rfl
  | cons e t ih =>
    rw [List.countP_cons, List.countP_cons, List.countP_cons, ih]
    unfold isReporting
    by_cases sent : isReport e = true
    · have taken : isRefusedReport e = false := by
        unfold isReport at sent
        split at sent
        · rfl
        · cases sent
      rw [sent, taken]
      exact Nat.add_right_comm _ _ 1
    · rw [Bool.not_eq_true] at sent
      rw [sent, Bool.false_or]
      exact Nat.add_assoc _ _ _

theorem Charge.ofTrace_counts (t : List HostEvent) : (ofTrace t).debits = t.countP isDebit ∧
    (ofTrace t).passed = t.countP isAuthorized ∧ (ofTrace t).reports = t.countP isReporting := by
  have counts := foldl_note {} t
  simp only [Nat.zero_add] at counts
  exact counts

theorem Charge.ofTrace_answered {t : List HostEvent} (status : Nat) (body : Option Str)
    (member : (⟨.sendHttpResponse status body, ()⟩ : HostEvent) ∈ t) : (ofTrace t).answered = true := by
  refine (foldl_known_iff (fun ℓ : Charge => ℓ.answered = true) (A := fun e => isAnswer e = true) ?_).mpr
    (Or.inr ⟨_, member, rfl⟩)
  intro ℓ e
  rw [note, Bool.or_eq_true, or_comm]

theorem Charge.ofTrace_handedOn {t : List HostEvent} {e : HostEvent} (member : e ∈ t) (handsOn : isHandOn e = true) :
    (ofTrace t).handedOn = true := by
  refine (foldl_known_iff (fun ℓ : Charge => ℓ.handedOn = true) (A := fun e => isHandOn e = true) ?_).mpr
    (Or.inr ⟨_, member, handsOn⟩)
  intro ℓ e
  rw [note, Bool.or_eq_true, or_comm]

theorem Charge.ofTrace_released {t : List HostEvent} (released : (ofTrace t).released = true) :
    (⟨.resumeHttpRequest, ()⟩ : HostEvent) ∈ t := by
  have known : (ofTrace t).released = true ↔
      ({} : Charge).released = true ∨ ∃ e ∈ t, isRelease e = true := by
    refine foldl_known_iff (fun ℓ : Charge => ℓ.released = true) fun ℓ e => ?_
    rw [note, Bool.or_eq_true, or_comm]
  rcases known.mp released with start | ⟨⟨c, r⟩, member, releases⟩
  · cases start
  · cases c with
    | resumeHttpRequest => exact member
    | _ => cases releases

theorem charging_path {α : Type} {p q : HostProg α} {Q : Charge → α → Prop} {t : List HostEvent}
    (follows : Follows charging Q p {}) (path : Prog.Path p t q) :
    (Charge.ofTrace t).Sound ∧ ∀ a, q = .done a → Q (.ofTrace t) a := by
  refine ⟨?_, ((follows_folding_iff.mp follows t q path).2 · · fun _ _ => trivial)⟩
  exact follows.folded path (fun _ _ => trivial) (fun ℓ c r may => may r) (Charge.sound_uncharged false false)

/-- What the charge of the callback that served the request says of its life. -/
theorem chargedOnce_of {life : Life} {t : List HostEvent} (sound : (Charge.ofTrace t).Sound)
    (complete : life.ended = true → (Charge.ofTrace t).Complete)
    (counts : ∀ p : HostEvent → Bool, p = isDebit ∨ p = isAuthorized ∨ p = isReporting →
      life.calls.countP p = t.countP p)
    (answered : life.Answered → (Charge.ofTrace t).answered = true)
    (released : (⟨.resumeHttpRequest, ()⟩ : HostEvent) ∈ t → life.Released) : ChargedOnce life := by
  obtain ⟨debits, passed, reports⟩ := Charge.ofTrace_counts t
  have once := sound.once
  have before := sound.passed
  have after := sound.reports
  rw [debits] at once before
  rw [passed] at before after
  rw [reports] at after
  have counts_ := counts isDebit (Or.inl rfl)
  have passes_ := counts isAuthorized (Or.inr (Or.inl rfl))
  have reports_ := counts isReporting (Or.inr (Or.inr rfl))
  have told_ := countP_isReporting life.calls
  refine ⟨by omega, by omega, by omega, fun was => ?_, fun ended => ?_⟩
  · rw [counts_, ← debits]
    exact sound.answered (answered was)
  · obtain ⟨all, told, freed⟩ := complete ended
    rw [← told_, counts_, passes_, reports_, ← debits, ← passed, ← reports]
    exact ⟨all, told, fun some_ => released (Charge.ofTrace_released (freed some_))⟩

/-- A request that was handed on is charged by the later callback. -/
theorem chargedOnce_later {t t' : List HostEvent} {action : Action} {later : Later} {ended : Bool} {e : HostEvent}
    (headers : (Charge.ofTrace t).Sound) (member : e ∈ t) (handsOn : isHandOn e = true)
    (sound : (Charge.ofTrace t').Sound) (complete : ended = true → (Charge.ofTrace t').Complete) :
    ChargedOnce ⟨t, some action, later, t', ended⟩ := by
  obtain ⟨uncharged, unanswered⟩ := headers.handedOn (Charge.ofTrace_handedOn member handsOn)
  obtain ⟨debits, passed, reports⟩ := Charge.ofTrace_counts t
  have before := headers.passed
  have after := headers.reports
  refine chargedOnce_of sound complete ?_ ?_ ?_
  · intro p kind
    have none_ : t.countP p = 0 := by
      rcases kind with rfl | rfl | rfl <;> omega
    show (t ++ t').countP p = t'.countP p
    rw [List.countP_append, none_, Nat.zero_add]
  · intro was
    obtain ⟨status, body, answer⟩ := was
    rcases List.mem_append.mp answer with early | late
    · rw [Charge.ofTrace_answered status body early] at unanswered
      cases unanswered
    · exact Charge.ofTrace_answered status body late
  · intro resumed
    exact Or.inl (List.mem_append_right t resumed)

theorem result_isSome {α : Type} {q : HostProg α} (ended : q.result.isSome = true) : ∃ a, q = .done a := by
  cases q with
  | done a => exact ⟨a, rfl⟩
  | trap | spin | call => cases ended

/-- Whatever callbacks a request goes through, whatever they find and are answered,
it is charged at most once, and never if the filter has answered it. -/
theorem charged_once {lib : ThirdParty} {rounds : Nat} {f : CacheFilter} {headers : Str → Option Str} {life : Life}
    (lives : Lives lib rounds f headers life) : ChargedOnce life := by
  cases lives with
  | @asked t q first =>
    obtain ⟨sound, complete⟩ := charging_path charging_onHttpRequestHeaders first
    refine chargedOnce_of sound ?_ ?_ ?_ ?_
    · intro ended
      obtain ⟨a, same⟩ := result_isSome ended
      exact complete a same
    · intro p _
      exact congrArg (List.countP p) (List.append_nil t)
    · intro was
      obtain ⟨status, body, answer⟩ := was
      exact Charge.ofTrace_answered status body (List.append_nil t ▸ answer)
    · intro resumed
      exact Or.inl (List.mem_append_left _ resumed)
  | @responded t f' action response t' q first out then_ =>
    obtain ⟨call, id, member⟩ := out
    obtain ⟨sound, complete⟩ := charging_path charging_onHttpCallResponse then_
    refine chargedOnce_later (charging_path charging_onHttpRequestHeaders first).1 member rfl sound ?_
    intro ended
    obtain ⟨a, same⟩ := result_isSome ended
    exact complete a same
  | @woken t f' action w root queueId rootId contextId t' q first waits then_ _ =>
    obtain ⟨sound, complete⟩ := charging_path charging_onQueueReady then_
    refine chargedOnce_later (charging_path charging_onHttpRequestHeaders first).1 waits rfl sound ?_
    intro ended
    obtain ⟨a, same⟩ := result_isSome ended
    exact complete a same

/-- A hit within the limits. -/
theorem charged_once_hit : ChargedOnce (hitLife (cachedWith ∅)) :=
  charged_once (hitLife_lives (cachedWith ∅))

example : (hitLife (cachedWith ∅)).calls.countP isDebit = 1 := by decide

end ThreescaleCache
