import ThreescaleCache.Disposition
import ThreescaleCache.RateLimitInfos

namespace ThreescaleCache
open Interaction

/-! What the callbacks record of the decision about a request. -/

/-- The decisions of the limit checks that a callback has made, and whether it
has left the request to a response or to a queue. -/
structure Decisions where
  infos : List RateLimitInfo := []
  handedOn : Bool := false

namespace Decisions

def note (ℓ : Decisions) : HostEvent → Decisions
  | ⟨.limitChecked (.ok status), _⟩ => { ℓ with infos := ℓ.infos ++ [status.info] }
  | ⟨.dispatchHttpCall _, .ok _⟩ => { ℓ with handedOn := true }
  | ⟨.insertWaitingContext _, _⟩ => { ℓ with handedOn := true }
  | _ => ℓ

def ofTrace (t : List HostEvent) : Decisions := t.foldl note {}

theorem mem_infos_note {info : RateLimitInfo} (ℓ : Decisions) (e : HostEvent) :
    info ∈ (ℓ.note e).infos ↔
      info ∈ ℓ.infos ∨ ∃ status, e = ⟨.limitChecked (.ok status), ()⟩ ∧ status.info = info := by
  obtain ⟨c, r⟩ := e
  cases c with
  | limitChecked result =>
    cases result with
    | error e => simp [note]
    | ok status => simp [note, eq_comm]
  | _ =>
    have same : (ℓ.note ⟨_, r⟩).infos = ℓ.infos := by
      unfold note
      split <;> first | rfl | (rename_i same; cases same)
    rw [same, or_iff_left]
    rintro ⟨_, ⟨⟩, _⟩

theorem handedOn_note (ℓ : Decisions) (e : HostEvent) :
    (ℓ.note e).handedOn = true ↔ ℓ.handedOn = true ∨ Disposal.HandsOn e := by
  obtain ⟨c, r⟩ := e
  cases c with
  | insertWaitingContext w => exact iff_of_true rfl (Or.inr (Or.inr ⟨w, rfl⟩))
  | dispatchHttpCall call =>
    cases r with
    | ok id => exact iff_of_true rfl (Or.inr (Or.inl ⟨call, id, rfl⟩))
    | error e =>
      refine (or_iff_left ?_).symm
      rintro (⟨_, _, ⟨⟩⟩ | ⟨_, ⟨⟩⟩)
  | _ =>
    have same : (ℓ.note ⟨_, r⟩).handedOn = ℓ.handedOn := by
      unfold note
      split <;> first | rfl | (rename_i same; cases same)
    rw [same, or_iff_left]
    rintro (⟨_, _, ⟨⟩⟩ | ⟨_, ⟨⟩⟩)

theorem mem_infos {info : RateLimitInfo} {t : List HostEvent} : info ∈ (ofTrace t).infos ↔
    ∃ status, (⟨.limitChecked (.ok status), ()⟩ : HostEvent) ∈ t ∧ status.info = info := by
  refine (foldl_known_iff (fun ℓ : Decisions => info ∈ ℓ.infos) mem_infos_note).trans ?_
  constructor
  · rintro (never | ⟨_, member, status, rfl, same⟩)
    · cases never
    · exact ⟨status, member, same⟩
  · rintro ⟨status, member, same⟩
    exact Or.inr ⟨_, member, status, rfl, same⟩

theorem handedOn_ofTrace {t : List HostEvent} {e : HostEvent} (member : e ∈ t) (handsOn : Disposal.HandsOn e) :
    (ofTrace t).handedOn = true :=
  (foldl_known_iff (fun ℓ : Decisions => ℓ.handedOn = true) handedOn_note).mpr (Or.inr ⟨e, member, handsOn⟩)

/-- At most one decision is made, and it is the one that is recorded. -/
inductive Recorded : List RateLimitInfo → RateLimitInfo → Prop
  | undecided : Recorded [] {}
  | decided (info : RateLimitInfo) : Recorded [info] info

theorem Recorded.of_empty {info : RateLimitInfo} (empty : info = {}) : Recorded [] info := empty ▸ .undecided

theorem Recorded.of_eq {info recorded : RateLimitInfo} (same : recorded = info) : Recorded [info] recorded :=
  same ▸ .decided info

theorem Recorded.eq_of_mem {infos : List RateLimitInfo} {info recorded : RateLimitInfo}
    (record : Recorded infos recorded) (member : info ∈ infos) : recorded = info := by
  cases record with
  | undecided => cases member
  | decided => exact (List.mem_singleton.mp member).symm

theorem Recorded.empty {infos : List RateLimitInfo} {recorded : RateLimitInfo}
    (record : Recorded infos recorded) (none_ : ∀ info, info ∉ infos) : recorded = {} := by
  cases record with
  | undecided => rfl
  | decided => exact absurd (List.mem_singleton_self _) (none_ _)

end Decisions

/-- Calls that neither decide about a request nor hand it on. -/
def Unremarkable : HostCall → Prop
  | .limitChecked _ => False
  | .dispatchHttpCall _ => False
  | .insertWaitingContext _ => False
  | _ => True

noncomputable def deciding : HostProtocol Decisions :=
  folding Decisions.note (fun _ => True) fun _ _ => True

section
variable {ℓ : Decisions}

theorem deciding_next {ℓ' : Decisions} {c : HostCall} {r : c.Reply} :
    deciding.next ℓ c r = some ℓ' ↔ ℓ' = ℓ.note ⟨c, r⟩ := by
  unfold deciding
  rw [folding_next, true_and]

theorem deciding_keeps : deciding.Keeps (fun ℓ ℓ' => ℓ' = ℓ) Unremarkable := by
  refine folding_keeps (fun _ => rfl) (fun first second => second.trans first) (fun _ _ _ => trivial) ?_
  intro ℓ c r unremarkable
  cases c with
  | limitChecked | dispatchHttpCall | insertWaitingContext => exact unremarkable.elim
  | _ => rfl

theorem unremarkable_sideCall {c : HostCall} (side : SideCall c) : Unremarkable c := by
  cases side <;> trivial

theorem unremarkable_filingCall {c : HostCall} (filing : FilingCall c) : Unremarkable c := by
  cases filing with
  | side side => exact unremarkable_sideCall side
  | application => trivial

theorem unremarkable_failureCall {c : HostCall} (failure : FailureCall c) : Unremarkable c := by
  cases failure <;> trivial

theorem unremarkable_freeCall {key : Str} {c : HostCall} (free : FreeCall key c) : Unremarkable c := by
  cases free <;> trivial

/-- A sequence whose first part is unremarkable. -/
theorem deciding_unremarkable {α β : Type} {p : HostProg α} {next : α → HostProg β} {Q : Decisions → β → Prop}
    (only : p.Only Unremarkable) (rest : ∀ a, Follows deciding Q (next a) ℓ) :
    Follows deciding Q (p >>= next) ℓ := by
  refine follows_bind.mpr ((deciding_keeps.follows only ℓ).mono fun ℓ' a same => ?_)
  subst same
  exact rest a

theorem deciding_silent {α : Type} {c : HostCall} {k : c.Reply → HostProg α} {Q : Decisions → α → Prop}
    (unremarkable : Unremarkable c) (rest : ∀ r, Follows deciding Q (k r) ℓ) : Follows deciding Q (.call c k) ℓ := by
  have only : (ask c).Only Unremarkable := ⟨unremarkable, fun _ => trivial⟩
  exact deciding_unremarkable only rest

/-! The cache hit flow -/

/-- A decision of the cache hit flow is recorded, and without one the context
has recorded what it had. -/
inductive HitRecords {ε : Type} (f : CacheFilter) : Decisions → CacheFilter × Except ε Unit → Prop
  | decided {f' : CacheFilter} {info : RateLimitInfo} (recorded : f'.state.rateLimitInfo = info) :
    HitRecords f { infos := [info] } (f', .ok ())
  | undecided {f' : CacheFilter} {result : Except ε Unit}
    (kept : f'.state.rateLimitInfo = f.state.rateLimitInfo) : HitRecords f {} (f', result)

theorem deciding_onAuthorizedTry {f : CacheFilter} {queueId cas : Nat} {now : Duration} {info : RateLimitInfo} :
    Follows deciding (HitRecords f) (f.onAuthorizedTry queueId now cas info) { infos := [info] } := by
  have stat : (onlyIf (cas = 0) (incrementStat .cachedApps)).Only Unremarkable :=
    only_onlyIf ⟨trivial, fun _ => trivial⟩
  have report : ((f.withRateLimitInfo info).reportToSingleton queueId now).Only Unremarkable :=
    only_reportToSingleton (fun _ _ => trivial) _ queueId now
  refine deciding_unremarkable stat fun _ => deciding_unremarkable report fun _ => ?_
  exact deciding_silent trivial fun _ => .decided rfl

theorem deciding_limitCheck {data : ThreescaleData} {app : Application} {cas : Nat} {now : Duration} :
    Follows deciding (fun ℓ' r => ℓ' = ℓ.note ⟨.limitChecked r, ()⟩)
      (limitCheckAndUpdateApplication data app cas now) ℓ := by
  have keeps := deciding_keeps.mono fun _ => unremarkable_filingCall
  refine (follows_limitChecked keeps fun _ _ => trivial).mono fun ℓ' r fact => ?_
  obtain ⟨ℓ₁, same, known⟩ := fact
  subst same
  exact deciding_next.mp known

theorem deciding_cacheHitTries {f : CacheFilter} {queueId tries cas : Nat} {now : Duration} {app : Application} :
    Follows deciding (HitRecords f) (CacheFilter.cacheHitTries queueId now tries f app cas) {} := by
  let Inv (_ : Nat) (ℓ : Decisions) (_ : Application) (_ : Nat) : Prop := ℓ = {}
  have again : ∀ tries, Follows deciding (Refetched (Inv tries)
      fun ℓ e => HitRecords f ℓ (f, .error (CacheHitError.appFetchFail e))) (getApplicationFromCache f.state.cacheKey) {} := by
    intro tries
    have reads := (only_getApplicationFromCache f.state.cacheKey).mono fun _ => unremarkable_sideCall
    refine (deciding_keeps.follows reads {}).mono fun ℓ fetched same => ?_
    subst same
    cases fetched with
    | ok found => rfl
    | error e => exact .undecided rfl
  refine follows_cacheHitTries f Inv ?_ ?_ rfl
  · intro ℓ app cas same
    subst same
    exact deciding_silent trivial fun _ => .undecided rfl
  · intro tries ℓ app cas same
    subst same
    refine deciding_limitCheck.mono fun ℓ result same => ?_
    subst same
    match result with
    | .ok (.authorized info) => exact deciding_onAuthorizedTry
    | .ok (.rateLimited info) => exact deciding_silent trivial fun _ => .decided rfl
    | .error (.cacheUpdateFail _) => exact again tries
    | .error .durationOverflow => exact .undecided rfl

theorem deciding_handleCacheHit {f : CacheFilter} {app : Application} {cas : Nat} :
    Follows deciding (HitRecords f) (f.handleCacheHit app cas) {} := by
  rw [handleCacheHit_eq]
  refine deciding_silent trivial fun _ => deciding_silent trivial fun queue => ?_
  cases queue with
  | none => exact .undecided rfl
  | some queueId =>
    refine deciding_silent trivial fun reading => ?_
    cases reading with
    | none => exact .undecided rfl
    | some now =>
      cases addHierarchyToMetrics app.metricHierarchy f.state.reqData.metrics with
      | none => trivial
      | some metrics => exact deciding_cacheHitTries

/-! The callback of the headers -/

/-- The context that is returned has recorded the decision. A request that is
handed on has not been decided about. -/
structure HeadersRecord (ℓ : Decisions) (r : CacheFilter × Action) : Prop where
  recorded : Decisions.Recorded ℓ.infos r.1.state.rateLimitInfo
  handedOn : ℓ.handedOn = true → ℓ.infos = []

variable {lib : ThirdParty} {rounds : Nat} {f : CacheFilter}

theorem deciding_inRequestFailure : Follows deciding HeadersRecord f.inRequestFailure {} := by
  have given : ∀ action, HeadersRecord {} (f.withRateLimitInfo {}, action) := fun _ => ⟨.undecided, fun _ => rfl⟩
  unfold CacheFilter.inRequestFailure
  dsimp only
  split
  · exact deciding_silent trivial fun _ => given _
  · exact given _

theorem deciding_cacheHitOrFail {app : Application} {cas : Nat} (empty : f.state.rateLimitInfo = {}) :
    Follows deciding HeadersRecord (f.cacheHitOrFail app cas) {} := by
  refine follows_bind.mpr (deciding_handleCacheHit.mono fun ℓ outcome records => ?_)
  match outcome, records with
  | (f', .ok ()), .decided recorded => exact ⟨.of_eq recorded, by rintro ⟨⟩⟩
  | (f', .ok ()), .undecided kept => exact ⟨.of_empty (kept.trans empty), fun _ => rfl⟩
  | (f', .error e), .undecided kept => exact deciding_inRequestFailure

theorem deciding_doAuthCall (empty : f.state.rateLimitInfo = {}) :
    Follows deciding HeadersRecord (f.doAuthCall lib) {} := by
  unfold CacheFilter.doAuthCall
  split
  · exact deciding_inRequestFailure
  · refine ⟨trivial, fun reply ℓ' known => ?_⟩
    have same := deciding_next.mp known
    subst same
    cases reply with
    | ok token => exact ⟨.of_empty empty, fun _ => rfl⟩
    | error e => exact deciding_inRequestFailure

/-- Trying for the lock decides nothing; a context that waits is handed on. -/
inductive LockRecords : Decisions → Except UniqueCalloutError SetCalloutLockStatus → Prop
  | settled {status} : LockRecords {} status
  | waits : LockRecords { handedOn := true } (.ok .addedToWaitlist)

theorem deciding_setCalloutLock : Follows deciding LockRecords (setCalloutLock rounds f) {} := by
  have silent : ∀ {c : HostCall}, Unremarkable c → Follows deciding (fun ℓ _ => ℓ = {}) (ask c) {} :=
    fun unremarkable => deciding_silent unremarkable fun _ => rfl
  refine deciding_silent trivial fun queue => ?_
  cases queue with
  | none => exact .settled
  | some queueId =>
    refine follows_setCalloutLockLoop (silent trivial) (fun v cas => silent trivial) ?_
      (fun status _ => .settled) rounds none
    refine ⟨trivial, fun _ ℓ' known => ?_⟩
    have same := deciding_next.mp known
    subst same
    exact .waits

theorem deciding_lookUp {ε α : Type} {read : HostProg (Except ε α)} {found : α → HostProg (CacheFilter × Action)}
    (empty : f.state.rateLimitInfo = {}) (reads : read.Only SideCall)
    (finds : ∀ a, Follows deciding HeadersRecord (found a) {}) :
    Follows deciding HeadersRecord (f.lookUp lib rounds read found) {} := by
  refine follows_lookUp (fun ℓ => ℓ = {}) ?_ ?_ ?_ ?_ rfl
  · rintro _ rfl
    refine (deciding_keeps.follows (reads.mono fun _ => unremarkable_sideCall) {}).mono fun ℓ' r same => ?_
    subst same
    exact ⟨rfl, fun a _ => finds a⟩
  · rintro _ rfl
    exact deciding_silent trivial fun _ => rfl
  · rintro _ rfl
    refine deciding_setCalloutLock.mono fun ℓ status records => ?_
    match status, records with
    | .ok .lockAcquired, .settled => exact deciding_doAuthCall empty
    | .ok .addedToWaitlist, .settled => exact ⟨.of_empty empty, fun _ => rfl⟩
    | .ok .addedToWaitlist, .waits => exact ⟨.of_empty empty, fun _ => rfl⟩
    | .ok .responseCameFirst, .settled => rfl
    | .error _, .settled => exact deciding_inRequestFailure
  · rintro _ rfl
    exact deciding_inRequestFailure

theorem deciding_lookupApplication (empty : f.state.rateLimitInfo = {}) :
    Follows deciding HeadersRecord (f.lookupApplication lib rounds) {} := by
  rw [lookupApplication_eq]
  exact deciding_lookUp empty (only_getApplicationFromCache f.state.cacheKey) fun _ => deciding_cacheHitOrFail empty

theorem deciding_onUserKey {userKey : UserKey} (empty : f.state.rateLimitInfo = {}) :
    Follows deciding HeadersRecord (f.onUserKey lib rounds userKey) {} := by
  rw [onUserKey_eq]
  refine deciding_lookUp empty (only_getAppIdFromCache userKey) fun appId => ?_
  have same : (f.mapped appId).state.rateLimitInfo = {} := empty
  exact deciding_lookupApplication same

theorem deciding_onHttpRequestHeaders {headers : Str → Option Str} (empty : f.state.rateLimitInfo = {}) :
    Follows deciding HeadersRecord (f.onHttpRequestHeaders lib rounds headers) {} := by
  unfold CacheFilter.onHttpRequestHeaders
  cases CacheFilter.getRequestData lib headers with
  | error e =>
    refine deciding_silent trivial fun _ => deciding_silent trivial fun _ => ?_
    exact ⟨.of_empty empty, fun _ => rfl⟩
  | ok data =>
    cases kind : data.appId with
    | userKey userKey =>
      simp only [kind]
      exact deciding_onUserKey empty
    | appId id key =>
      simp only [kind]
      exact deciding_lookupApplication empty

/-! The callback of the response -/

theorem deciding_requestProcessFailure {α : Type} {a : α} {Q : Decisions → CacheFilter × α → Prop}
    (here : ∀ f' : CacheFilter, f'.state.rateLimitInfo = {} → Q {} (f', a)) :
    Follows deciding Q (f.requestProcessFailure >>= fun f => pure (f, a)) {} := by
  have given : Follows deciding (fun ℓ f' => ℓ = {} ∧ f'.state.rateLimitInfo = {}) f.requestProcessFailure {} := by
    have only : (onlyIf (f.config.failureModeDeny = true)
        (sendHttpResponse 403 (some CacheFilter.accessForbidden))).Only Unremarkable :=
      only_onlyIf ⟨trivial, fun _ => trivial⟩
    exact deciding_unremarkable only fun _ => deciding_silent trivial fun _ => ⟨rfl, rfl⟩
  refine follows_bind.mpr (given.mono fun ℓ f' fact => ?_)
  obtain ⟨rfl, empty⟩ := fact
  exact here f' empty

theorem deciding_handleAuthResponse {response : AuthorizationStatus} :
    Follows deciding (HitRecords f) (f.handleAuthResponse response) {} := by
  unfold CacheFilter.handleAuthResponse
  cases CacheFilter.authResponseIds response with
  | error e => exact .undecided rfl
  | ok found =>
    obtain ⟨appKeys, appId, serviceId⟩ := found
    have recorded : Follows deciding (fun ℓ r => ℓ = {} ∧ r.1.state.rateLimitInfo = f.state.rateLimitInfo)
        (f.recordAppId appId) {} := by
      unfold CacheFilter.recordAppId
      split
      · refine deciding_silent trivial fun reply => ?_
        cases reply <;> exact ⟨rfl, rfl⟩
      · exact ⟨rfl, rfl⟩
    refine follows_bind.mpr (recorded.mono fun ℓ outcome fact => ?_)
    obtain ⟨f₁, result⟩ := outcome
    obtain ⟨rfl, kept⟩ := fact
    cases result with
    | error e => exact .undecided kept
    | ok =>
      dsimp only
      cases CacheFilter.authResponseApplication response appKeys appId serviceId with
      | none => exact .undecided kept
      | some app =>
        refine follows_bind.mpr (deciding_handleCacheHit.mono fun ℓ outcome records => ?_)
        match outcome, records with
        | (f₂, .ok ()), .decided recorded => exact .decided recorded
        | (f₂, .ok ()), .undecided later => exact .undecided (later.trans kept)
        | (f₂, .error e), .undecided later => exact .undecided (later.trans kept)

/-- What the callback of the response has recorded by the time it frees the lock. -/
def AnswerRecords (ℓ : Decisions) (r : CacheFilter × Option WaiterAction) : Prop :=
  Decisions.Recorded ℓ.infos r.1.state.rateLimitInfo

theorem deciding_answerFailure (f : CacheFilter) (action : Option WaiterAction) :
    Follows deciding AnswerRecords (f.requestProcessFailure >>= fun f => pure (f, action)) {} :=
  deciding_requestProcessFailure fun _ empty => Decisions.Recorded.of_empty empty

theorem deciding_onAuthorization {authorization : Authorization} (empty : f.state.rateLimitInfo = {}) :
    Follows deciding AnswerRecords (f.onAuthorization authorization) {} := by
  cases authorization with
  | error code => exact deciding_answerFailure f none
  | status response =>
    unfold CacheFilter.onAuthorization
    dsimp only
    split
    · refine follows_bind.mpr (deciding_handleAuthResponse.mono fun ℓ outcome records => ?_)
      match outcome, records with
      | (f', .ok ()), .decided recorded => exact Decisions.Recorded.of_eq recorded
      | (f', .ok ()), .undecided kept => exact Decisions.Recorded.of_empty (kept.trans empty)
      | (f', .error e), .undecided _ => exact deciding_answerFailure f' _
    · refine deciding_silent trivial fun _ => ?_
      cases response.reason with
      | none => trivial
      | some reason => exact deciding_silent trivial fun _ => Decisions.Recorded.of_empty empty

theorem deciding_onCallResult {status : Str} {body : Option ResponseBody} (empty : f.state.rateLimitInfo = {}) :
    Follows deciding AnswerRecords (f.onCallResult status body) {} := by
  unfold CacheFilter.onCallResult
  split
  · match body with
    | some .notUtf8 => trivial
    | some (.parsed authorization) => exact deciding_onAuthorization empty
    | some .unparsable | none => exact deciding_answerFailure f _
  · exact deciding_silent trivial fun _ => deciding_answerFailure f _

theorem deciding_onHttpCallResponse {response : CallResponse} (empty : f.state.rateLimitInfo = {}) :
    Follows deciding (fun ℓ g => Decisions.Recorded ℓ.infos g.state.rateLimitInfo)
      (f.onHttpCallResponse response) {} := by
  unfold CacheFilter.onHttpCallResponse
  cases response.status with
  | none => trivial
  | some status =>
    refine follows_bind.mpr ((deciding_onCallResult empty).mono fun ℓ outcome records => ?_)
    obtain ⟨f', action⟩ := outcome
    cases action with
    | none => exact records
    | some action =>
      have frees := (only_freeCalloutLock f.state.cacheKey action).mono fun _ => unremarkable_freeCall
      exact deciding_unremarkable frees fun _ => records

end

end ThreescaleCache
