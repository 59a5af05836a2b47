import ThreescaleCache.FirstWrite
import ThreescaleCache.Interaction.Folding
import ThreescaleCache.SingletonRun

namespace ThreescaleCache
open Interaction

/-! Requests, the threads that serve them, and the singleton, all on one host. -/

inductive Task where
  | request (lib : ThirdParty) (rounds : Nat) (f : CacheFilter) (headers : Str → Option Str)
  | queueReady (root : CacheFilterRoot) (queueId : Nat)
  | message (calls : ApiCalls) (sizes : Sizes) (singleton : SingletonService)
  | tick (calls : ApiCalls) (singleton : SingletonService)
  | refresh (singleton : SingletonService) (tokenId : Nat) (response : CallResponse)

inductive TaskResult where
  | requested (f : CacheFilter)
  | finished

def Task.program : Task → HostProg TaskResult
  | .request lib rounds f headers =>
    f.onHttpRequestHeaders lib rounds headers >>= fun r => .done (.requested r.1)
  | .queueReady root queueId => root.onQueueReady queueId >>= fun _ => .done .finished
  | .message calls sizes singleton => singleton.onQueueReady calls sizes >>= fun _ => .done .finished
  | .tick calls singleton => singleton.onTick calls >>= fun _ => .done .finished
  | .refresh singleton tokenId response =>
    singleton.onHttpCallResponse tokenId response >>= fun _ => .done .finished

/-- The response names the service that the context has asked for, and the
application if it has asked by app_id. -/
def NamesAsked (f : CacheFilter) (response : CallResponse) : Prop :=
  ∀ a appKeys appId serviceId, response.body = some (.parsed (.status a)) →
    CacheFilter.authResponseIds a = .ok (appKeys, appId, serviceId) →
    serviceId = f.state.reqData.serviceId ∧
      ∀ id key, f.state.reqData.appId = .appId id key → appId = id

variable {ι : Type} [DecidableEq ι]

/-- A response comes to the context of a request with a call out. -/
def taskParties (ι : Type) : Parties ι HostCall HostCall.Reply Host TaskResult where
  exec := fun _ => Host.exec
  env := Host.Env
  resume := fun i result t p => ∃ f response, result = .requested f ∧ Did t i Dispatches ∧
    NamesAsked f response ∧ p = f.onHttpCallResponse response >>= fun _ => .done .finished

abbrev TaskConfig (ι : Type) := Config ι HostCall HostCall.Reply Host TaskResult

def taskStart (tasks : ι → Task) (h : Host) : TaskConfig ι where
  shared := h
  procs := fun i => (tasks i).program
  trace := []

/-- The cache key of the context is that of its request. -/
def Coherent (f : CacheFilter) : Prop :=
  f.state.cacheKey = ⟨f.state.reqData.serviceId, f.state.reqData.appId⟩

def WaitingCoherent (h : Host) : Prop := ∀ rootId contextId w, h.waiting rootId contextId = some w → Coherent w

/-- The key of the application that a call has debited. -/
def debitedKey : HostEvent → Option Str
  | ⟨.setSharedData key (some (.application _)) _, .ok ()⟩ => some key
  | _ => none

def CacheFilter.waitsByUserKey (f : CacheFilter) : Bool :=
  match f.state.cacheKey.appId with
  | .userKey _ => true
  | .appId .. => false

/-- A waiter is fetched that waits under its user_key. -/
def fetchesByUserKey : HostEvent → Bool
  | ⟨.getWaitingContext .., some w⟩ => w.waitsByUserKey
  | _ => false

/-- The message of party `i` names the one application that the party has debited. -/
structure Reports (t : List (ι × HostEvent)) (i : ι) (m : Message) : Prop where
  byAppId : ∃ id key, m.data.appId = .appId id key
  debited : ∃ key, Did t i (debitedKey · = some key)
  same : ∀ key, Did t i (debitedKey · = some key) →
    (CacheKey.mk m.data.serviceId m.data.appId).asString = key

/-! What a party knows of its own debits -/

structure Debited where
  keys : List Str := []
  byUserKey : Bool := false
  called : Bool := false

def isDispatched : HostEvent → Bool
  | ⟨.dispatchHttpCall _, .ok _⟩ => true
  | _ => false

theorem dispatches_iff {e : HostEvent} : Dispatches e ↔ isDispatched e = true := by
  constructor
  · intro dispatches
    obtain ⟨call, id, rfl⟩ := dispatches
    rfl
  · intro is
    unfold isDispatched at is
    split at is
    · exact ⟨_, _, rfl⟩
    · cases is

namespace Debited

def note (ℓ : Debited) (e : HostEvent) : Debited where
  keys := (debitedKey e).toList ++ ℓ.keys
  byUserKey := ℓ.byUserKey || fetchesByUserKey e
  called := ℓ.called || isDispatched e

/-- The message names the one application debited. -/
def Fits (ℓ : Debited) (m : Message) : Prop :=
  (∃ id key, m.data.appId = .appId id key) ∧ (∃ key, key ∈ ℓ.keys) ∧
    ∀ key ∈ ℓ.keys, (CacheKey.mk m.data.serviceId m.data.appId).asString = key

/-- What is known of party `i` is what it did. -/
structure Of (t : List (ι × HostEvent)) (i : ι) (ℓ : Debited) : Prop where
  keys : ∀ key, key ∈ ℓ.keys ↔ Did t i (debitedKey · = some key)
  byUserKey : ℓ.byUserKey = true ↔ Did t i (fetchesByUserKey · = true)
  called : ℓ.called = true ↔ Did t i Dispatches

omit [DecidableEq ι] in
theorem Of.note {t : List (ι × HostEvent)} {i : ι} {ℓ : Debited} (of : ℓ.Of t i) (e : HostEvent) :
    (ℓ.note e).Of (t ++ [(i, e)]) i where
  keys := fun key => by
    simp only [Debited.note, List.mem_append, Option.mem_toList, of.keys key, did_append, true_and]
    exact or_comm
  byUserKey := by
    simp only [Debited.note, Bool.or_eq_true, of.byUserKey, did_append, true_and]
  called := by
    simp only [Debited.note, Bool.or_eq_true, of.called, did_append, true_and, dispatches_iff]

omit [DecidableEq ι] in
theorem Of.other {t : List (ι × HostEvent)} {i j : ι} {ℓ : Debited} (of : ℓ.Of t i) (other : i ≠ j)
    (e : HostEvent) : ℓ.Of (t ++ [(j, e)]) i where
  keys := fun key => by simp only [of.keys key, did_append, other, false_and, or_false]
  byUserKey := by simp only [of.byUserKey, did_append, other, false_and, or_false]
  called := by simp only [of.called, did_append, other, false_and, or_false]

omit [DecidableEq ι] in
theorem Of.fits_iff {t : List (ι × HostEvent)} {i : ι} {ℓ : Debited} (of : ℓ.Of t i) (m : Message) :
    ℓ.Fits m ↔ Reports t i m := by
  constructor
  · intro fits
    obtain ⟨byAppId, ⟨key, member⟩, same⟩ := fits
    exact ⟨byAppId, ⟨key, (of.keys key).mp member⟩, fun key did => same key ((of.keys key).mpr did)⟩
  · intro reports
    obtain ⟨key, did⟩ := reports.debited
    exact ⟨reports.byAppId, ⟨key, (of.keys key).mpr did⟩,
      fun key member => reports.same key ((of.keys key).mp member)⟩

end Debited

/-- What the parties rely on: applications are read under their own keys, and
waiters have coherent keys. -/
def ReadsFit : HostEvent → Prop
  | ⟨.getSharedData key, .ok (some (.application app), _)⟩ => app.cacheKey.asString = key
  | ⟨.getWaitingContext .., some w⟩ => Coherent w
  | _ => True

/-- What they do for each other, and the statement about messages. -/
def ReportingCall (ℓ : Debited) : HostCall → Prop
  | .enqueueSharedQueue _ (.message m) => ℓ.Fits m ↔ ℓ.byUserKey = false
  | .setSharedData key (some (.application app)) _ => app.cacheKey.asString = key
  | .insertWaitingContext w => Coherent w
  | _ => True

noncomputable def reporting : HostProtocol Debited := folding Debited.note ReadsFit ReportingCall

/-- Calls that are always allowed, and tell nothing of debits. -/
def Uncounted : HostCall → Prop
  | .enqueueSharedQueue _ (.message _) => False
  | .setSharedData _ (some (.application _)) _ => False
  | .insertWaitingContext w => Coherent w
  | .getWaitingContext .. => False
  | .dispatchHttpCall _ => False
  | _ => True

theorem note_enqueue {ℓ : Debited} {queueId : Nat} {item : QueueItem} {r : Except Status Unit} :
    ℓ.note ⟨.enqueueSharedQueue queueId item, r⟩ = ℓ := by
  simp [Debited.note, debitedKey, fetchesByUserKey, isDispatched]

theorem note_refused {ℓ : Debited} {key : Str} {value : Option SharedValue} {cas : Option Nat} {e : Status} :
    ℓ.note ⟨.setSharedData key value cas, .error e⟩ = ℓ := by
  simp [Debited.note, debitedKey, fetchesByUserKey, isDispatched]

theorem uncounted_note {ℓ : Debited} {c : HostCall} {r : c.Reply} (uncounted : Uncounted c) :
    ℓ.note ⟨c, r⟩ = ℓ := by
  cases c with
  | setSharedData key value cas =>
    match value with
    | some (.application _) => exact uncounted.elim
    | none | some (.appId _) | some (.calloutLock _) | some (.memoryCounter _) =>
      simp [Debited.note, debitedKey, fetchesByUserKey, isDispatched]
  | getWaitingContext rootId contextId => exact uncounted.elim
  | dispatchHttpCall call => exact uncounted.elim
  | _ => simp [Debited.note, debitedKey, fetchesByUserKey, isDispatched]

theorem reporting_keeps : reporting.Keeps (fun ℓ ℓ' => ℓ' = ℓ) Uncounted := by
  refine folding_keeps (fun _ => rfl) (fun first second => second.trans first) ?_ fun _ _ _ => uncounted_note
  intro ℓ c uncounted
  cases c with
  | setSharedData key value cas =>
    match value with
    | some (.application _) => exact uncounted.elim
    | none | some (.appId _) | some (.calloutLock _) | some (.memoryCounter _) => trivial
  | enqueueSharedQueue queueId item =>
    cases item with
    | message m => exact uncounted.elim
    | waiterAction action => trivial
  | insertWaitingContext w => exact uncounted
  | _ => trivial

theorem uncounted_sideCall {c : HostCall} (side : SideCall c) : Uncounted c := by
  cases side <;> trivial

theorem uncounted_failureCall {c : HostCall} (failure : FailureCall c) : Uncounted c := by
  cases failure <;> trivial

theorem uncounted_freeCall {key : Str} {c : HostCall} (free : FreeCall key c) : Uncounted c := by
  cases free <;> trivial

theorem uncounted_tryLockCall {f : CacheFilter} (coherent : Coherent f) {key : Str} {c : HostCall}
    (lock : TryLockCall f key c) : Uncounted c := by
  cases lock with
  | wait => exact coherent
  | read | write | queue => trivial

variable {ℓ : Debited}

/-- A sequence whose first part leaves the debits as they are. -/
theorem reporting_uncounted {α β : Type} {p : HostProg α} {next : α → HostProg β} {Q : Debited → β → Prop}
    (uncounted : p.Only Uncounted) (rest : ∀ a, Follows reporting Q (next a) ℓ) :
    Follows reporting Q (p >>= next) ℓ := by
  refine follows_bind.mpr ((reporting_keeps.follows uncounted ℓ).mono fun ℓ' a same => ?_)
  subst same
  exact rest a

theorem reporting_getApplicationFromCache (key : CacheKey) :
    Follows reporting (fun ℓ' r => ℓ' = ℓ ∧
      ∀ app cas, r = .ok (app, cas) → app.cacheKey.asString = key.asString)
      (getApplicationFromCache key) ℓ := by
  refine ⟨trivial, fun reply ℓ' known => ?_⟩
  obtain ⟨fits, rfl⟩ := folding_next.mp known
  rw [uncounted_note (c := .getSharedData key.asString) trivial]
  match reply with
  | .ok (some (.application app), some cas) =>
    refine ⟨rfl, fun app' cas' same => ?_⟩
    cases same
    exact fits
  | .error _ | .ok (none, _) | .ok (some (.application _), none) | .ok (some (.appId _), some _)
  | .ok (some (.appId _), none) | .ok (some (.calloutLock _), some _) | .ok (some (.calloutLock _), none)
  | .ok (some (.memoryCounter _), some _) | .ok (some (.memoryCounter _), none) =>
    exact ⟨rfl, by rintro _ _ ⟨⟩⟩

/-! The cache hit -/

/-- The request of the context names the application that it looks up. -/
def Agrees (f : CacheFilter) : Prop :=
  (∃ id key, f.state.reqData.appId = .appId id key) ∧
    (CacheKey.mk f.state.reqData.serviceId f.state.reqData.appId).asString = f.state.cacheKey.asString

theorem Coherent.agrees_iff {f : CacheFilter} (coherent : Coherent f) :
    Agrees f ↔ f.waitsByUserKey = false := by
  unfold Agrees CacheFilter.waitsByUserKey
  rw [coherent]
  cases f.state.reqData.appId with
  | userKey key => simp
  | appId id key => simp

/-- After the write that debits the application. -/
def Debited.charged (ℓ : Debited) (key : Str) : Debited := { ℓ with keys := [key] }

theorem note_charged {ℓ : Debited} {key : Str} {app : Application} {cas : Option Nat} (new : ℓ.keys = []) :
    ℓ.note ⟨.setSharedData key (some (.application app)) cas, .ok ()⟩ = ℓ.charged key := by
  simp [Debited.note, Debited.charged, debitedKey, fetchesByUserKey, isDispatched, new]

theorem charged_fits_iff {f : CacheFilter} {m : Message} (data : m.data = f.state.reqData)
    (agrees : Agrees f ↔ ℓ.byUserKey = false) :
    (ℓ.charged f.state.cacheKey.asString).Fits m ↔ ℓ.byUserKey = false := by
  rw [← agrees]
  simp only [Debited.Fits, Debited.charged, Agrees, data, List.mem_singleton, exists_eq, forall_eq, true_and]

theorem reporting_onAuthorizedTry {f : CacheFilter} {queueId cas : Nat} {now : Duration}
    {info : RateLimitInfo} (agrees : Agrees f ↔ ℓ.byUserKey = false) :
    Follows reporting (fun ℓ' _ => ℓ'.called = ℓ.called) (f.onAuthorizedTry queueId now cas info)
      (ℓ.charged f.state.cacheKey.asString) := by
  have stat : (onlyIf (cas = 0) (incrementStat .cachedApps)).Only Uncounted :=
    only_onlyIf ⟨trivial, fun _ => trivial⟩
  have released : ∀ f' : CacheFilter, Follows reporting (fun ℓ' _ => ℓ'.called = ℓ.called)
      (resumeHttpRequest >>= fun _ => pure (f', (.ok () : Except CacheHitError Unit)))
      (ℓ.charged f.state.cacheKey.asString) :=
    fun _ => reporting_uncounted ⟨trivial, fun _ => trivial⟩ fun _ => rfl
  refine reporting_uncounted stat fun _ => ⟨charged_fits_iff rfl agrees, fun reply ℓ' known => ?_⟩
  obtain ⟨_, rfl⟩ := folding_next.mp known
  rw [note_enqueue]
  cases reply with
  | ok => exact released _
  | error e => exact released _

theorem reporting_cacheHitTries {f : CacheFilter} {queueId tries cas : Nat} {now : Duration}
    {app : Application} (own : app.cacheKey.asString = f.state.cacheKey.asString)
    (new : ℓ.keys = []) (agrees : Agrees f ↔ ℓ.byUserKey = false) :
    Follows reporting (fun ℓ' _ => ℓ'.called = ℓ.called)
      (CacheFilter.cacheHitTries queueId now tries f app cas) ℓ := by
  let Inv (_ : Nat) (ℓ' : Debited) (app : Application) (_ : Nat) : Prop :=
    ℓ' = ℓ ∧ app.cacheKey.asString = f.state.cacheKey.asString
  have again : ∀ tries, Follows reporting (Refetched (Inv tries) fun ℓ' _ => ℓ'.called = ℓ.called)
      (getApplicationFromCache f.state.cacheKey) ℓ := by
    refine fun tries => (reporting_getApplicationFromCache _).mono fun ℓ' fetched fact => ?_
    obtain ⟨rfl, owns⟩ := fact
    cases fetched with
    | ok found => exact ⟨rfl, owns found.1 found.2 rfl⟩
    | error e => rfl
  refine follows_cacheHitTries f Inv ?_ ?_ ⟨rfl, own⟩
  · intro ℓ' app cas inv
    obtain ⟨rfl, _⟩ := inv
    exact reporting_uncounted ⟨trivial, fun _ => trivial⟩ fun _ => rfl
  · intro tries ℓ' app cas inv
    obtain ⟨rfl, own⟩ := inv
    refine follows_limitCheckAndUpdate (.of_keeps (reporting_keeps.mono fun _ => uncounted_sideCall)) ?_ ?_ ?_ ?_ ?_
    · intro ℓ₁ ℓ₂ r same follows
      subst same
      exact follows
    · exact fun _ => reporting_uncounted ⟨trivial, fun _ => trivial⟩ fun _ => rfl
    · exact fun _ info _ => reporting_uncounted ⟨trivial, fun _ => trivial⟩ fun _ =>
        reporting_uncounted ⟨trivial, fun _ => trivial⟩ fun _ => rfl
    · exact fun _ _ _ e => reporting_uncounted ⟨trivial, fun _ => trivial⟩ fun _ => again tries
    · intro app' info pass ℓ₁ same
      subst same
      have filed : app'.cacheKey.asString = app.cacheKey.asString := by rw [limitCheck_pass_cacheKey pass]
      refine ⟨filed, fun reply ℓ₂ known => ?_⟩
      obtain ⟨_, rfl⟩ := folding_next.mp known
      cases reply with
      | ok =>
        rw [note_charged new, own]
        exact reporting_uncounted ⟨trivial, fun _ => trivial⟩ fun _ => reporting_onAuthorizedTry agrees
      | error e =>
        rw [note_refused]
        exact reporting_uncounted ⟨trivial, fun _ => trivial⟩ fun _ => again tries

theorem reporting_handleCacheHit {f : CacheFilter} {app : Application} {cas : Nat}
    (own : app.cacheKey.asString = f.state.cacheKey.asString) (new : ℓ.keys = [])
    (agrees : Agrees f ↔ ℓ.byUserKey = false) :
    Follows reporting (fun ℓ' _ => ℓ'.called = ℓ.called) (f.handleCacheHit app cas) ℓ := by
  rw [handleCacheHit_eq]
  refine reporting_uncounted ⟨trivial, fun _ => trivial⟩ fun _ => ?_
  refine reporting_uncounted ⟨trivial, fun _ => trivial⟩ fun queue => ?_
  cases queue with
  | none => rfl
  | some queueId =>
    refine reporting_uncounted ⟨trivial, fun _ => trivial⟩ fun reading => ?_
    cases reading with
    | none => rfl
    | some now =>
      dsimp only
      cases addHierarchyToMetrics app.metricHierarchy f.state.reqData.metrics with
      | none => trivial
      | some metrics => exact reporting_cacheHitTries own new agrees

/-! The callbacks -/

/-- What a request has after the callback of its headers: if its call is out,
nothing was debited. -/
def Asked (ℓ : Debited) (f : CacheFilter) : Prop := ℓ.called = true → Coherent f ∧ ℓ = { called := true }

theorem reporting_failed {f : CacheFilter} (uncalled : ℓ.called = false) :
    Follows reporting (fun ℓ' r => Asked ℓ' r.1) f.inRequestFailure ℓ := by
  refine (reporting_keeps.follows ((only_inRequestFailure f).mono fun _ => uncounted_failureCall) ℓ).mono ?_
  intro ℓ' r same called
  subst same
  rw [uncalled] at called
  cases called

theorem reporting_cacheHitOrFail {f : CacheFilter} {app : Application} {cas : Nat}
    (own : app.cacheKey.asString = f.state.cacheKey.asString) (agrees : Agrees f) :
    Follows reporting (fun ℓ' r => Asked ℓ' r.1) (f.cacheHitOrFail app cas) {} := by
  refine follows_bind.mpr ((reporting_handleCacheHit own rfl (iff_of_true agrees rfl)).mono ?_)
  intro ℓ' outcome uncalled
  obtain ⟨f', result⟩ := outcome
  cases result with
  | ok =>
    intro called
    rw [uncalled] at called
    cases called
  | error e => exact reporting_failed uncalled

theorem reporting_doAuthCall {lib : ThirdParty} {f : CacheFilter} (coherent : Coherent f) :
    Follows reporting (fun ℓ' r => Asked ℓ' r.1) (f.doAuthCall lib) {} := by
  unfold CacheFilter.doAuthCall
  split
  · exact reporting_failed rfl
  · refine ⟨trivial, fun reply ℓ' known => ?_⟩
    obtain ⟨_, rfl⟩ := folding_next.mp known
    cases reply with
    | ok token => exact fun _ => ⟨coherent, rfl⟩
    | error e => exact reporting_failed rfl

theorem reporting_lookUp {ε α : Type} {lib : ThirdParty} {rounds : Nat} {f : CacheFilter}
    (coherent : Coherent f) {read : HostProg (Except ε α)} {found : α → HostProg (CacheFilter × Action)}
    (reads : Follows reporting (fun ℓ' r => ℓ' = {} ∧ ∀ a, r = .ok a →
      Follows reporting (fun ℓ' r => Asked ℓ' r.1) (found a) {}) read {}) :
    Follows reporting (fun ℓ' r => Asked ℓ' r.1) (f.lookUp lib rounds read found) {} := by
  refine follows_lookUp (fun ℓ => ℓ = {}) ?_ ?_ ?_ ?_ rfl
  · rintro _ rfl
    refine reads.mono fun ℓ' r here => ?_
    obtain ⟨rfl, hit⟩ := here
    exact ⟨rfl, hit⟩
  · rintro _ rfl
    refine ⟨trivial, fun _ ℓ' known => ?_⟩
    obtain ⟨_, rfl⟩ := folding_next.mp known
    rfl
  · rintro _ rfl
    have locks := (only_setCalloutLock rounds f).mono fun _ => uncounted_tryLockCall coherent
    refine (reporting_keeps.follows locks {}).mono fun ℓ' status same => ?_
    subst same
    match status with
    | .ok .lockAcquired => exact reporting_doAuthCall coherent
    | .ok .addedToWaitlist => rintro ⟨⟩
    | .ok .responseCameFirst => rfl
    | .error e => exact reporting_failed rfl
  · rintro _ rfl
    exact reporting_failed rfl

theorem reporting_lookupApplication {lib : ThirdParty} {rounds : Nat} {f : CacheFilter}
    (coherent : Coherent f) (agrees : Agrees f) :
    Follows reporting (fun ℓ' r => Asked ℓ' r.1) (f.lookupApplication lib rounds) {} := by
  rw [lookupApplication_eq]
  refine reporting_lookUp coherent ((reporting_getApplicationFromCache _).mono fun ℓ' r fact => ?_)
  obtain ⟨same, owns⟩ := fact
  refine ⟨same, fun found is => ?_⟩
  exact reporting_cacheHitOrFail (owns found.1 found.2 is) agrees

theorem mapped_coherent {f : CacheFilter} (coherent : Coherent f) (appId : AppId) : Coherent (f.mapped appId) := by
  unfold Coherent at coherent ⊢
  simp only [CacheFilter.mapped, CacheKey.setAppId, coherent]

theorem reporting_onUserKey {lib : ThirdParty} {rounds : Nat} {f : CacheFilter} {userKey : UserKey}
    (coherent : Coherent f) :
    Follows reporting (fun ℓ' r => Asked ℓ' r.1) (f.onUserKey lib rounds userKey) {} := by
  rw [onUserKey_eq]
  have reads := (only_getAppIdFromCache userKey).mono fun _ => uncounted_sideCall
  refine reporting_lookUp coherent ((reporting_keeps.follows reads {}).mono fun ℓ' r same => ?_)
  refine ⟨same, fun appId _ => ?_⟩
  have coherent' := mapped_coherent coherent appId
  exact reporting_lookupApplication coherent' (coherent'.agrees_iff.mpr rfl)

theorem reporting_onHttpRequestHeaders {lib : ThirdParty} {rounds : Nat} {f : CacheFilter}
    {headers : Str → Option Str} :
    Follows reporting (fun ℓ' r => Asked ℓ' r.1) (f.onHttpRequestHeaders lib rounds headers) {} := by
  unfold CacheFilter.onHttpRequestHeaders
  cases CacheFilter.getRequestData lib headers with
  | error e =>
    exact reporting_uncounted ⟨trivial, fun _ => trivial⟩ fun _ =>
      reporting_uncounted ⟨trivial, fun _ => trivial⟩ fun _ => by rintro ⟨⟩
  | ok data =>
    cases kind : data.appId with
    | userKey userKey =>
      simp only [kind]
      exact reporting_onUserKey (by rw [Coherent, kind])
    | appId id key =>
      simp only [kind]
      have coherent : Coherent { f with
          state.cacheKey := ⟨data.serviceId, .appId id key⟩
          state.reqData := data } := by
        rw [Coherent, kind]
      exact reporting_lookupApplication coherent (coherent.agrees_iff.mpr rfl)

/-- Once the call is out: nothing is debited, and no waiter fetched. -/
abbrev Debited.out : Debited := { called := true }

theorem reporting_handleAuthResponse {f : CacheFilter} {response : AuthorizationStatus}
    (coherent : Coherent f)
    (names : ∀ appKeys appId serviceId, CacheFilter.authResponseIds response = .ok (appKeys, appId, serviceId) →
      serviceId = f.state.reqData.serviceId ∧
        ∀ id key, f.state.reqData.appId = .appId id key → appId = id) :
    Follows reporting (fun _ _ => True) (f.handleAuthResponse response) .out := by
  unfold CacheFilter.handleAuthResponse
  cases ids : CacheFilter.authResponseIds response with
  | error e => trivial
  | ok found =>
    obtain ⟨appKeys, appId, serviceId⟩ := found
    obtain ⟨sameService, sameApp⟩ := names appKeys appId serviceId ids
    have recorded : Follows reporting (fun ℓ r => ℓ = .out ∧ (∃ key, r.1.state.reqData.appId = .appId appId key) ∧
        r.1.state.reqData.serviceId = serviceId) (f.recordAppId appId) .out := by
      unfold CacheFilter.recordAppId
      split
      · refine reporting_uncounted ⟨trivial, fun reply => ?_⟩ fun _ => ⟨rfl, ⟨none, rfl⟩, sameService.symm⟩
        cases reply <;> trivial
      · rename_i id key byAppId
        have kept : f.state.reqData.appId = .appId id key := by rw [← byAppId, coherent]
        exact ⟨rfl, ⟨key, by rw [kept, sameApp id key kept]⟩, sameService.symm⟩
    refine follows_bind.mpr (recorded.mono fun ℓ outcome fact => ?_)
    obtain ⟨f', result⟩ := outcome
    obtain ⟨rfl, ⟨key, byAppId⟩, service⟩ := fact
    cases result with
    | error e => trivial
    | ok =>
      dsimp only
      cases formed : CacheFilter.authResponseApplication response appKeys appId serviceId with
      | none => trivial
      | some app =>
        have own : app.cacheKey = ⟨serviceId, .appId appId none⟩ :=
          rebuilt_cacheKey ids ((rebuilt_eq ids).trans formed)
        refine follows_bind.mpr ((reporting_handleCacheHit (by rw [own]) rfl ?_).mono fun ℓ' outcome _ => ?_)
        · dsimp only at byAppId service
          refine iff_of_true ⟨⟨appId, key, byAppId⟩, ?_⟩ rfl
          simp only [service, byAppId, CacheKey.asString, AppIdentifier.asRef]
        · obtain ⟨f'', result⟩ := outcome
          cases result <;> trivial

theorem reporting_requestProcessFailure (f : CacheFilter) :
    Follows reporting (fun _ _ => True) f.requestProcessFailure ℓ :=
  (reporting_keeps.follows ((only_requestProcessFailure f).mono fun _ => uncounted_failureCall) ℓ).mono
    fun _ _ _ => trivial

theorem reporting_onAuthorization {f : CacheFilter} {authorization : Authorization} (coherent : Coherent f)
    (names : NamesAsked f ⟨some [], some (.parsed authorization)⟩) :
    Follows reporting (fun _ _ => True) (f.onAuthorization authorization) .out := by
  cases authorization with
  | error code => exact follows_bind.mpr ((reporting_requestProcessFailure f).mono fun _ _ _ => trivial)
  | status response =>
    unfold CacheFilter.onAuthorization
    dsimp only
    split
    · refine follows_bind.mpr ((reporting_handleAuthResponse coherent fun _ _ _ ids =>
        names response _ _ _ rfl ids).mono fun ℓ outcome _ => ?_)
      obtain ⟨f', result⟩ := outcome
      cases result with
      | ok => trivial
      | error e => exact follows_bind.mpr ((reporting_requestProcessFailure f').mono fun _ _ _ => trivial)
    · refine reporting_uncounted ⟨trivial, fun _ => trivial⟩ fun _ => ?_
      cases response.reason with
      | none => trivial
      | some reason => exact reporting_uncounted ⟨trivial, fun _ => trivial⟩ fun _ => trivial

theorem reporting_onHttpCallResponse {f : CacheFilter} {response : CallResponse} (coherent : Coherent f)
    (names : NamesAsked f response) :
    Follows reporting (fun _ _ => True) (f.onHttpCallResponse response) .out := by
  have failed : ∀ ℓ, Follows reporting (fun _ _ => True)
      (f.requestProcessFailure >>= fun f => pure (f, some (WaiterAction.handleFailure 0))) ℓ :=
    fun ℓ => follows_bind.mpr ((reporting_requestProcessFailure f).mono fun _ _ _ => trivial)
  unfold CacheFilter.onHttpCallResponse
  cases response.status with
  | none => trivial
  | some status =>
    have result : Follows reporting (fun _ _ => True) (f.onCallResult status response.body) .out := by
      unfold CacheFilter.onCallResult
      split
      · match body : response.body with
        | some .notUtf8 => trivial
        | some (.parsed authorization) =>
          exact reporting_onAuthorization coherent fun a _ _ _ same ids => names a _ _ _ (body.trans same) ids
        | some .unparsable | none => exact failed _
      · exact reporting_uncounted ⟨trivial, fun _ => trivial⟩ fun _ => failed _
    refine follows_bind.mpr (result.mono fun ℓ outcome _ => ?_)
    obtain ⟨f', action⟩ := outcome
    cases action with
    | none => trivial
    | some action =>
      exact reporting_uncounted ((only_freeCalloutLock _ action).mono fun _ => uncounted_freeCall) fun _ => trivial

/-! The waiters -/

theorem reporting_lookupForWaiter {context : CacheFilter} (new : ℓ.keys = [])
    (agrees : Agrees context ↔ ℓ.byUserKey = false) :
    Follows reporting (fun _ _ => True) (CacheFilterRoot.lookupForWaiter context) ℓ := by
  refine follows_bind.mpr ((reporting_getApplicationFromCache _).mono fun ℓ₁ found fact => ?_)
  obtain ⟨rfl, owns⟩ := fact
  cases found with
  | error e => trivial
  | ok found =>
    refine follows_bind.mpr ((reporting_handleCacheHit (owns found.1 found.2 rfl) new agrees).mono ?_)
    intro ℓ₂ outcome _
    obtain ⟨f', result⟩ := outcome
    cases result with
    | ok => exact ⟨trivial, fun _ _ _ => trivial⟩
    | error e => exact follows_bind.mpr ((reporting_requestProcessFailure f').mono fun _ _ _ => trivial)

theorem reporting_wakeWaiter {context : CacheFilter} {action : WaiterAction} (coherent : Coherent context) :
    Follows reporting (fun _ _ => True) (CacheFilterRoot.wakeWaiter context action)
      { byUserKey := context.waitsByUserKey } := by
  cases action with
  | handleFailure id => exact follows_bind.mpr ((reporting_requestProcessFailure context).mono fun _ _ _ => trivial)
  | handleCacheHit id =>
    show Follows reporting _ (CacheFilterRoot.resumeCacheHit context) _
    have asked := coherent.agrees_iff
    cases kind : context.state.cacheKey.appId with
    | appId id key =>
      simp only [CacheFilterRoot.resumeCacheHit, kind]
      exact reporting_lookupForWaiter rfl asked
    | userKey userKey =>
      have byUserKey : context.state.reqData.appId = .userKey userKey := by rw [← kind, coherent]
      simp only [CacheFilterRoot.resumeCacheHit, kind]
      refine reporting_uncounted ((only_getAppIdFromCache userKey).mono fun _ => uncounted_sideCall) fun found => ?_
      cases found with
      | error e => trivial
      | ok appId =>
        refine reporting_lookupForWaiter rfl (iff_of_false ?_ ?_)
        · intro agrees
          obtain ⟨⟨id, key, byAppId⟩, _⟩ := agrees
          cases byUserKey.symm.trans byAppId
        · simp only [CacheFilter.waitsByUserKey, kind, Bool.true_eq_false, not_false_eq_true]

theorem reporting_onQueueReady {root : CacheFilterRoot} {queueId : Nat} :
    Follows reporting (fun _ _ => True) (root.onQueueReady queueId) {} := by
  have removes : ∀ ℓ contextId, Follows reporting (fun _ _ => True)
      (ask (.removeWaitingContext root.id contextId)) ℓ :=
    fun ℓ contextId => ⟨trivial, fun _ _ _ => trivial⟩
  refine reporting_uncounted ⟨trivial, fun _ => trivial⟩ fun item => ?_
  match item with
  | .error _ | .ok none | .ok (some (.message _)) => trivial
  | .ok (some (.waiterAction action)) =>
    refine ⟨trivial, fun found ℓ known => ?_⟩
    obtain ⟨coherent, rfl⟩ := folding_next.mp known
    cases found with
    | none => trivial
    | some context =>
      have sets : (ask (.setEffectiveContext action.contextId)).Only Uncounted := ⟨trivial, fun _ => trivial⟩
      show Follows reporting _ (ask (.setEffectiveContext action.contextId) >>= _) _
      refine reporting_uncounted sets fun set => ?_
      cases set with
      | error e => exact removes _ _
      | ok =>
        exact follows_bind.mpr ((reporting_wakeWaiter coherent).mono fun ℓ _ _ => removes ℓ _)

/-! All runs -/

/-- What is allowed whatever was debited. -/
def AlwaysFits (c : HostCall) : Prop := ∀ ℓ, ReportingCall ℓ c

theorem reporting_always {α : Type} {p : HostProg α} (only : p.Only AlwaysFits) :
    Follows reporting (fun _ _ => True) p ℓ := by
  have keeps : reporting.Keeps (fun _ _ => True) AlwaysFits :=
    folding_keeps (fun _ => trivial) (fun _ _ => trivial) (fun ℓ _ fits => fits ℓ) fun _ _ _ _ => trivial
  exact keeps.follows only ℓ

theorem alwaysFits_filingCall {c : HostCall} (filing : FilingCall c) : AlwaysFits c := by
  intro ℓ
  cases filing with
  | application app cas => rfl
  | side side => cases side <;> trivial

theorem alwaysFits_singletonCall {c : HostCall} (call : SingletonService.SingletonCall c) : AlwaysFits c := by
  cases call with
  | dispatch | dequeue => exact fun _ => trivial
  | refresh refresh =>
    cases refresh with
    | erase | count => exact fun _ => trivial
    | filing filing => exact alwaysFits_filingCall filing
  | check check =>
    cases check with
    | checked => exact fun _ => trivial
    | filing filing => exact alwaysFits_filingCall filing

/-- What a task comes to. -/
def TaskEnds (ℓ : Debited) (result : TaskResult) : Prop := ∀ f, result = .requested f → Asked ℓ f

theorem Task.follows (task : Task) : Follows reporting TaskEnds task.program {} := by
  have singleton : ∀ {α : Type} {p : HostProg α}, p.Only SingletonService.SingletonCall →
      Follows reporting TaskEnds (p >>= fun _ => .done .finished) {} := by
    intro α p only
    refine follows_bind.mpr ((reporting_always (only.mono fun _ => alwaysFits_singletonCall)).mono ?_)
    rintro _ _ _ _ ⟨⟩
  cases task with
  | request lib rounds f headers =>
    refine follows_bind.mpr (reporting_onHttpRequestHeaders.mono fun ℓ r asked f' same => ?_)
    cases same
    exact asked
  | queueReady root queueId =>
    refine follows_bind.mpr (reporting_onQueueReady.mono ?_)
    rintro _ _ _ _ ⟨⟩
  | message calls sizes s => exact singleton (SingletonService.only_onQueueReady calls sizes s)
  | tick calls s => exact singleton ((SingletonService.only_onTick calls s).mono fun _ => SingletonService.FlushCall.singleton)
  | refresh s tokenId response =>
    exact singleton ((SingletonService.only_onHttpCallResponse s tokenId response).mono fun _ => .refresh)

/-- Every message so far reports what its party had debited, unless a waiter
was fetched that waits by user_key. -/
def AllReport (t : List (ι × HostEvent)) : Prop :=
  ∀ before after i queueId m reply,
    t = before ++ (i, ⟨.enqueueSharedQueue queueId (.message m), reply⟩) :: after →
    (Reports before i m ↔ ¬Did before i (fetchesByUserKey · = true))

structure ReportingInv (s : TaskConfig ι) (known : ι → Debited) : Prop where
  filed : Filed s.shared.shared
  waiting : WaitingCoherent s.shared
  of : ∀ i, (known i).Of s.trace i
  report : AllReport s.trace

/-- A call of a party keeps the applications filed. -/
theorem Filed.reporting {h : Host} {c : HostCall} (filed : Filed h.shared) (may : ReportingCall ℓ c) :
    Filed (Host.exec c h).2.shared := by
  refine Host.exec_shared filed fun key value cas same => SharedData.Stored.put filed ?_
  intro app same
  subst same
  subst same
  exact may

theorem WaitingCoherent.update {h : Host} (waiting : WaitingCoherent h) (rootId contextId : Nat)
    {value : Option CacheFilter} (coherent : ∀ w, value = some w → Coherent w) :
    WaitingCoherent { h with
      waiting := Function.update h.waiting rootId (Function.update (h.waiting rootId) contextId value) } := by
  intro rootId' contextId' w here
  dsimp only at here
  by_cases root : rootId' = rootId
  · subst root
    rw [Function.update_self] at here
    by_cases context : contextId' = contextId
    · subst context
      rw [Function.update_self] at here
      exact coherent w here
    · rw [Function.update_of_ne context] at here
      exact waiting rootId' contextId' w here
  · rw [Function.update_of_ne root] at here
    exact waiting rootId' contextId' w here

theorem WaitingCoherent.reporting {h : Host} {c : HostCall} (waiting : WaitingCoherent h)
    (may : ReportingCall ℓ c) : WaitingCoherent (Host.exec c h).2 := by
  cases c with
  | insertWaitingContext f =>
    refine waiting.update f.rootId f.contextId fun w same => ?_
    cases same
    exact may
  | removeWaitingContext rootId contextId =>
    refine waiting.update rootId contextId fun w same => ?_
    cases same
  | _ => exact waiting

/-- The replies of the host are what the parties rely on. -/
theorem readsFit_exec {h : Host} {c : HostCall} (filed : Filed h.shared) (waiting : WaitingCoherent h) :
    ReadsFit ⟨c, (Host.exec c h).1⟩ := by
  cases c with
  | getSharedData key =>
    show ReadsFit ⟨.getSharedData key, .ok (h.shared.get key)⟩
    match entry : h.shared.entry key with
    | none =>
      rw [SharedData.get_absent entry]
      trivial
    | some (value, cas) =>
      rw [SharedData.get_present entry]
      match value with
      | some (.application app) => exact filed key app cas entry
      | none | some (.appId _) | some (.calloutLock _) | some (.memoryCounter _) => trivial
  | getWaitingContext rootId contextId =>
    show ReadsFit ⟨.getWaitingContext rootId contextId, h.waiting rootId contextId⟩
    match here : h.waiting rootId contextId with
    | none => trivial
    | some w => exact waiting rootId contextId w here
  | _ => trivial

omit [DecidableEq ι] in
theorem AllReport.append {t : List (ι × HostEvent)} {i : ι} {e : HostEvent} (all : AllReport t)
    (of : ℓ.Of t i) (may : ReportingCall ℓ e.1) : AllReport (t ++ [(i, e)]) := by
  intro before after j queueId m reply split
  rcases List.eq_nil_or_concat after with rfl | ⟨rest, last, rfl⟩
  · obtain ⟨rfl, same⟩ := List.append_inj' split rfl
    cases same
    rw [← of.fits_iff, ← of.byUserKey, Bool.not_eq_true]
    exact may
  · rw [List.concat_eq_append, ← List.cons_append, ← List.append_assoc] at split
    obtain ⟨rfl, _⟩ := List.append_inj' split rfl
    exact all before rest j queueId m reply rfl

theorem reporting_preserved :
    Preserved (taskParties ι) anyStep (fun _ => reporting) (fun _ => TaskEnds) ReportingInv where
  call := by
    intro s known i c k inv _ may _
    refine ⟨_, folding_next.mpr ⟨readsFit_exec inv.filed inv.waiting, rfl⟩, inv.filed.reporting may,
      inv.waiting.reporting may, fun j => ?_, inv.report.append (inv.of i) may⟩
    by_cases same : j = i
    · subst same
      rw [Function.update_self]
      exact (inv.of j).note _
    · rw [Function.update_of_ne same]
      exact (inv.of j).other same _
  resume := by
    intro s known i result p inv _ ends fact _
    obtain ⟨f, response, rfl, did, names, rfl⟩ := fact
    obtain ⟨coherent, out⟩ := ends f rfl (((inv.of i).called).mpr did)
    refine ⟨known i, ?_, ?_⟩
    · rw [out]
      refine follows_bind.mpr ((reporting_onHttpCallResponse coherent names).mono ?_)
      rintro _ _ _ _ ⟨⟩
    · rw [Function.update_eq_self]
      exact ⟨inv.filed, inv.waiting, inv.of, inv.report⟩
  env := by
    intro s known _ inv fact
    obtain ⟨clock, dispatch, rfl⟩ := fact
    exact ⟨inv.filed, inv.waiting, inv.of, inv.report⟩

/-- A message names the application that was debited for its request, unless
the request is that of a waiter by user_key. -/
theorem reported_debited_iff {tasks : ι → Task} {h : Host} {s : TaskConfig ι} (filed : Filed h.shared)
    (waiting : WaitingCoherent h) (reach : Reach (taskParties ι) anyStep (taskStart tasks h) s)
    {before after : List (ι × HostEvent)} {i : ι} {queueId : Nat} {m : Message} {reply : Except Status Unit}
    (split : s.trace = before ++ (i, ⟨.enqueueSharedQueue queueId (.message m), reply⟩) :: after) :
    Reports before i m ↔ ¬Did before i (fetchesByUserKey · = true) := by
  have start : ReportingInv (taskStart tasks h) fun _ => {} := by
    refine ⟨filed, waiting, fun i => ⟨fun key => ?_, ?_, ?_⟩, ?_⟩
    · exact iff_of_false List.not_mem_nil (not_did_nil i _)
    · exact iff_of_false Bool.false_ne_true (not_did_nil i _)
    · exact iff_of_false Bool.false_ne_true (not_did_nil i _)
    · intro before after j queueId m reply split
      exact absurd split.symm (List.append_ne_nil_of_right_ne_nil before (List.cons_ne_nil _ _))
  obtain ⟨_, inv, _⟩ := reach.invariant reporting_preserved ⟨fun _ => {}, start, fun i => (tasks i).follows⟩
  exact inv.report before after i queueId m reply split

/-! A hit by app_id, and a waiter by user_key -/

theorem filed_cachedHost (app : Application) : Filed (cachedHost app).shared := by
  refine filed_empty.put fun other same => ?_
  cases same
  rfl

theorem waitingCoherent_none {h : Host} (none_ : ∀ rootId contextId, h.waiting rootId contextId = none) :
    WaitingCoherent h := by
  intro rootId contextId w here
  rw [none_] at here
  cases here

/-- A request that finds its application, up to its message. -/
def hitReported : TaskConfig Unit :=
  (taskStart (fun _ => .request hitLib 3 (hitFilter 1) hitHeaders) (cachedHost (cachedWith ∅))).play
    (taskParties Unit) (List.replicate 13 ())

def hitMessageSent : Message := ⟨false, oneHit, .fromSecs 1000000⟩

theorem reported_debited_hit :
    Reports hitReported.trace.dropLast () hitMessageSent ↔
      ¬Did hitReported.trace.dropLast () (fetchesByUserKey · = true) := by
  have split : hitReported.trace = hitReported.trace.dropLast ++
      [((), ⟨.enqueueSharedQueue 7 (.message hitMessageSent), .ok ()⟩)] := rfl
  exact reported_debited_iff (filed_cachedHost _) (waitingCoherent_none fun _ _ => rfl) (Reach.play _ .start) split

def keyHeaders (name : Str) : Option Str :=
  if name = "x-3scale-user-key".toList then some ['u'] else hitHeaders name

/-- Two requests by user_key, and the thread of the second one. -/
def keyTasks : Fin 3 → Task
  | 0 => .request hitLib 3 (hitFilter 1) keyHeaders
  | 1 => .request hitLib 3 (hitFilter 2) keyHeaders
  | 2 => .queueReady { id := 2, config := {} } 8

/-- The queue of the singleton is another one than those of the threads. -/
def threadHost : Host :=
  { quietHost with queueIds := fun name => some (if name = queueName then 7 else 8) }

/-- The context of the first request, with its call out. -/
def keyAsked : CacheFilter :=
  { hitFilter 1 with
    state.cacheKey := ⟨['s'], .userKey ['u']⟩
    state.reqData := { oneHit with appId := .userKey ['u'] } }

/-- The first request has its call out, and the second one waits. -/
def keyWaiting : TaskConfig (Fin 3) :=
  (taskStart keyTasks threadHost).play (taskParties (Fin 3)) (List.replicate 6 0 ++ List.replicate 6 1)

/-- The response comes, and the second request is resumed. -/
def keyReported : TaskConfig (Fin 3) :=
  (keyWaiting.resumed 0 (keyAsked.onHttpCallResponse hitResponse >>= fun _ => .done .finished)).play
    (taskParties (Fin 3)) (List.replicate 17 0 ++ List.replicate 14 2)

theorem keyAsked_names : NamesAsked keyAsked hitResponse := by
  intro a appKeys appId serviceId is ids
  cases is
  cases ids
  exact ⟨rfl, by rintro _ _ ⟨⟩⟩

/-- The message of the second request names its user_key. -/
theorem not_reported_waiter :
    Reach (taskParties (Fin 3)) anyStep (taskStart keyTasks threadHost) keyReported ∧
    Filed threadHost.shared ∧ WaitingCoherent threadHost ∧
    ∃ m reply, keyReported.trace = keyReported.trace.dropLast ++
        [(2, ⟨.enqueueSharedQueue 7 (.message m), reply⟩)] ∧
      ¬Reports keyReported.trace.dropLast 2 m := by
  refine ⟨?_, filed_empty, waitingCoherent_none fun _ _ => rfl, _, _, rfl, fun reports => ?_⟩
  · have asked : keyWaiting.procs 0 = .done (.requested keyAsked) := rfl
    refine Reach.play _ (.next (Reach.play _ .start) (.resume asked ?_) trivial)
    have dispatched : keyWaiting.trace[5]? = some (0, ⟨.dispatchHttpCall _, .ok 1⟩) := rfl
    exact ⟨keyAsked, hitResponse, rfl, dispatches_at 5 dispatched, keyAsked_names, rfl⟩
  · obtain ⟨_, _, byAppId⟩ := reports.byAppId
    cases byAppId

end ThreescaleCache
