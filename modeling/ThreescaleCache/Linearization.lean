import Mathlib.Data.Bool.Basic
import ThreescaleCache.CacheHitRules
import ThreescaleCache.Interaction.History
import ThreescaleCache.SingletonService

namespace ThreescaleCache
open Interaction

/-! Threads that debit an application that is cached under the key `K` -/

inductive Debiter where
  | filter (f : CacheFilter)
  | singleton (data : ThreescaleData) (reqTime : Duration)

namespace Debiter

def data : Debiter → ThreescaleData
  | .filter f => f.state.reqData
  | .singleton data _ => data

/-- The time that the singleton is told. A filter asks for it. -/
def reqTime : Debiter → Option Duration
  | .filter _ => none
  | .singleton _ reqTime => some reqTime

/-- The key under which the application is looked up. -/
def cacheKey : Debiter → CacheKey
  | .filter f => f.state.cacheKey
  | .singleton data _ => ⟨data.serviceId, data.appId⟩

/-- The filter enters `handle_cache_hit` with the application it has found. -/
def program : Debiter → HostProg Unit
  | .filter f => do
    match ← getApplicationFromCache f.state.cacheKey with
    | .ok (app, cas) => f.handleCacheHit app cas >>= fun _ => .done ()
    | .error _ => .done ()
  | .singleton data reqTime =>
    SingletonService.updateApplicationCache data reqTime >>= fun _ => .done ()

end Debiter

variable {ι : Type} [DecidableEq ι]

abbrev DebitConfig (ι : Type) := Config ι HostCall HostCall.Reply Host Unit

/-- Outside these threads the clock may move, and other keys may be written. -/
def debitParties (ι : Type) (K : Str) : Parties ι HostCall HostCall.Reply Host Unit where
  exec := fun _ => Host.exec
  env := fun h h' => Host.Env h h' ∨ ∃ key value, key ≠ K ∧
    h' = { h with shared := h.shared.put key value }
  resume := fun _ _ _ _ => False

def debitStart (party : ι → Debiter) (h : Host) : DebitConfig ι where
  shared := h
  procs := fun i => (party i).program
  trace := []

/-! What a trace says about the application -/

/-- The value that a call has stored under the key. -/
def storedBy (K : Str) : HostEvent → Option (Option SharedValue)
  | ⟨.setSharedData key value _, .ok ()⟩ => if key = K then some value else none
  | _ => none

/-- All values stored under the key, with the party that has stored them. -/
def storedAt (K : Str) (t : List (ι × HostEvent)) : List (ι × Option SharedValue) :=
  t.filterMap fun e => (storedBy K e.2).map fun value => (e.1, value)

/-- The limit check has returned that the request is authorized. -/
def isAuthorized : HostEvent → Bool
  | ⟨.limitChecked (.ok (.authorized _)), _⟩ => true
  | _ => false

/-- How often a party has stored a value under the key. -/
def storesOf (K : Str) (t : List (ι × HostEvent)) (i : ι) : Nat :=
  ((storedAt K t).filter fun entry => entry.1 = i).length

def authorizationsOf (t : List (ι × HostEvent)) (i : ι) : Nat :=
  t.countP fun e => e.1 = i && isAuthorized e.2

/-- The time that the request of a party is checked at. -/
def CheckedAt (party : Debiter) (t : List (ι × HostEvent)) (i : ι) (now : Duration) : Prop :=
  party.reqTime = some now ∨ (i, ⟨.getCurrentTime, some now⟩) ∈ t

/-- `app'` is what the limit check of the party's request makes of `app`: the
windows are rolled over, and every limited metric has its hits left and is charged. -/
def DebitBy (party : ι → Debiter) (t : List (ι × HostEvent)) (i : ι) (app app' : Application) : Prop :=
  ∃ now info, CheckedAt (party i) t i now ∧
    limitCheck now (party i).data.metrics.entries app {} = .pass app' info ∧
    Debits now (party i).data.metrics.entries app app'

/-- The values stored for the application are the debits of the requests whose
write succeeded, one after the other. -/
structure Linearized (K : Str) (party : ι → Debiter) (initial : Application) (s : DebitConfig ι) :
    Prop where
  history : ∃ debits last cas,
    storedAt K s.trace = debits.map (fun debit => (debit.1, some (.application debit.2))) ∧
    Applied (DebitBy party s.trace) initial debits last ∧
    s.shared.shared.entry K = some (some (.application last), cas)
  once : ∀ i, authorizationsOf s.trace i ≤ storesOf K s.trace i ∧ storesOf K s.trace i ≤ 1
  finished : ∀ i, s.procs i = .done () → storesOf K s.trace i = authorizationsOf s.trace i

/-! The protocol of one thread -/

/-- What a thread knows: its time, what it has read of the application, and
whether it has written it and has noted an authorization. -/
structure Debiting where
  time : Option Duration := none
  reads : List (Application × Nat) := []
  written : Bool := false
  noted : Bool := false

namespace Debiting

/-- No reply but an application is ever read under `K`. -/
def next (K : Str) (ℓ : Debiting) : (c : HostCall) → c.Reply → Option Debiting
  | .getSharedData key, reply =>
    if key = K then
      match reply with
      | .ok (some (.application app), some cas) => some { ℓ with reads := (app, cas) :: ℓ.reads }
      | _ => none
    else some ℓ
  | .setSharedData _ (some (.application _)) _, .ok () => some { ℓ with written := true }
  | .getCurrentTime, some now => some { ℓ with time := some now }
  | .limitChecked (.ok (.authorized _)), _ => some { ℓ with noted := true }
  | _, _ => some ℓ

/-- The same state of the debit, and at least as much read. -/
structure Le (ℓ ℓ' : Debiting) : Prop where
  time : ℓ'.time = ℓ.time
  reads : ℓ.reads ⊆ ℓ'.reads
  written : ℓ'.written = ℓ.written
  noted : ℓ'.noted = ℓ.noted

theorem Le.refl (ℓ : Debiting) : Le ℓ ℓ := ⟨rfl, fun _ => id, rfl, rfl⟩

theorem Le.trans {ℓ₁ ℓ₂ ℓ₃ : Debiting} (first : Le ℓ₁ ℓ₂) (second : Le ℓ₂ ℓ₃) : Le ℓ₁ ℓ₃ :=
  ⟨second.time.trans first.time, fun _ member => second.reads (first.reads member),
    second.written.trans first.written, second.noted.trans first.noted⟩

/-- Nothing is debited yet. -/
structure Ready (ℓ : Debiting) : Prop where
  written : ℓ.written = false
  noted : ℓ.noted = false

theorem Ready.le {ℓ ℓ' : Debiting} (ready : Ready ℓ) (le : Le ℓ ℓ') : Ready ℓ' :=
  ⟨le.written.trans ready.written, le.noted.trans ready.noted⟩

/-- The debit is noted, if there was one. -/
def Settled (ℓ : Debiting) : Prop := ℓ.written = ℓ.noted

theorem Ready.settled {ℓ : Debiting} (ready : Ready ℓ) : Settled ℓ :=
  ready.written.trans ready.noted.symm

end Debiting

inductive DebitCall (K : Str) (data : ThreescaleData) (ℓ : Debiting) : HostCall → Prop
  | count (size : UInt64) (cas : Option Nat) (other : sharedMemoryCounterKey ≠ K) :
      DebitCall K data ℓ (.setSharedData sharedMemoryCounterKey (some (.memoryCounter size)) cas)
  | write (app app' : Application) (cas : Nat) (now : Duration) (info : RateLimitInfo)
      (read : (app, cas) ∈ ℓ.reads) (time : ℓ.time = some now) (ready : ℓ.Ready)
      (pass : limitCheck now data.metrics.entries app {} = .pass app' info) :
      DebitCall K data ℓ
        (.setSharedData app.cacheKey.asString (some (.application app')) (some cas))
  | authorized (info : RateLimitInfo) (written : ℓ.written = true) (noted : ℓ.noted = false) :
      DebitCall K data ℓ (.limitChecked (.ok (.authorized info)))
  | other (c : HostCall) (notSet : ∀ key value cas, c ≠ .setSharedData key value cas)
      (notAuthorized : ∀ info, c ≠ .limitChecked (.ok (.authorized info))) : DebitCall K data ℓ c

def debiting (K : Str) (data : ThreescaleData) : HostProtocol Debiting where
  may := DebitCall K data
  next := Debiting.next K

variable {K : Str} {data : ThreescaleData} {ℓ : Debiting}

theorem Debiting.read_le {key : Str} {r : Except Status (Option SharedValue × Option Nat)} {ℓ' : Debiting}
    (known : ℓ.next K (.getSharedData key) r = some ℓ') : Debiting.Le ℓ ℓ' := by
  by_cases same : key = K
  · simp only [Debiting.next, if_pos same] at known
    split at known
    · cases Option.some.inj known
      exact ⟨rfl, fun _ => List.mem_cons_of_mem _, rfl, rfl⟩
    · cases known
  · simp only [Debiting.next, if_neg same] at known
    cases Option.some.inj known
    exact .refl ℓ

theorem DebitCall.read (key : Str) : DebitCall K data ℓ (.getSharedData key) :=
  .other _ (by rintro _ _ _ ⟨⟩) (by rintro _ ⟨⟩)

theorem debiting_keeps (other : sharedMemoryCounterKey ≠ K) :
    (debiting K data).Keeps Debiting.Le SideCall where
  refl := .refl
  trans := .trans
  may := by
    intro ℓ c side
    cases side with
    | read key => exact .read key
    | count size cas => exact .count size cas other
  next := by
    intro ℓ c r ℓ' side known
    cases side with
    | read key => exact Debiting.read_le known
    | count size cas =>
      cases r <;> (cases Option.some.inj known; exact .refl ℓ)

/-- If the counter has the key of the application, it is never written: what
is read there is no counter. -/
theorem debiting_updateSharedMemorySize (same : sharedMemoryCounterKey = K) (delta : Int32) :
    Follows (debiting K data) (fun ℓ' r => ℓ.Le ℓ' ∧ ∃ e, r = .error e) (updateSharedMemorySize delta)
      ℓ := by
  refine ⟨.read _, fun r ℓ' known => ?_⟩
  have le := Debiting.read_le known
  simp only [debiting, Debiting.next, if_pos same] at known
  split at known
  · rename_i app cas
    dsimp only [Prog.bind]
    rw [SharedValue.counter_application]
    exact ⟨le, _, rfl⟩
  · cases known

theorem debiting_sides : Sides (debiting K data) Debiting.Le where
  pairSize := by
    intro key ℓ
    refine ⟨.read key, fun r ℓ' known => ?_⟩
    have le := Debiting.read_le known
    match r with
    | .error _ | .ok (some _, _) | .ok (none, _) => exact le
  counted := by
    intro delta tries ℓ
    by_cases same : sharedMemoryCounterKey = K
    · induction tries generalizing ℓ with
      | zero => exact .refl ℓ
      | succ tries ih =>
        refine follows_bind.mpr ((debiting_updateSharedMemorySize same delta).mono ?_)
        intro ℓ' _ fact
        obtain ⟨le, e, rfl⟩ := fact
        exact (ih ℓ').mono fun _ _ later => le.trans later
    · exact (debiting_keeps same).follows (only_retryUpdateSharedMemorySize delta tries) ℓ

/-- The calls that say nothing about a debit. -/
def isIdle : HostCall → Bool
  | .getSharedData _ => false
  | .setSharedData .. => false
  | .getCurrentTime => false
  | .limitChecked _ => false
  | _ => true

theorem debiting_idle {α : Type} {c : HostCall} {f : c.Reply → HostProg α} {Q : Debiting → α → Prop}
    (idle : isIdle c = true) (rest : ∀ r, Follows (debiting K data) Q (f r) ℓ) :
    Follows (debiting K data) Q (ask c >>= f) ℓ := by
  refine ⟨.other _ ?_ ?_, fun r ℓ' known => ?_⟩
  · intro key value cas same
    subst same
    cases idle
  · intro info same
    subst same
    cases idle
  · have same : ℓ.next K c r = some ℓ := by
      cases c <;> first | rfl | cases idle
    cases Option.some.inj (same.symm.trans known)
    exact rest r

/-- A limit check debits the application if it answers that the request is authorized. -/
theorem debiting_limitCheck {app : Application} {cas : Nat} {now : Duration}
    (read : (app, cas) ∈ ℓ.reads) (time : ℓ.time = some now) (ready : ℓ.Ready) :
    Follows (debiting K data) (fun ℓ' r => match r with
        | .ok (.authorized _) => ℓ'.Settled
        | _ => ℓ.Le ℓ' ∧ ℓ'.Ready)
      (limitCheckAndUpdateApplication data app cas now) ℓ := by
  let Outcome (ℓ' : Debiting) (r : Except UpdateMetricsError RateLimitStatus) : Prop :=
    match r with
    | .ok (.authorized _) => ℓ'.Settled
    | _ => ℓ.Le ℓ' ∧ ℓ'.Ready
  have noted : ∀ {r ℓ'}, (∀ info, r ≠ .ok (.authorized info)) → ℓ.Le ℓ' → ℓ'.Ready →
      Follows (debiting K data) Outcome (noteLimitCheck r) ℓ' := by
    intro r ℓ' not le ready'
    have may : DebitCall K data ℓ' (.limitChecked r) := by
      refine .other _ (by rintro _ _ _ ⟨⟩) ?_
      rintro info ⟨⟩
      exact not info rfl
    refine ⟨may, fun _ ℓ'' known => ?_⟩
    match r, not with
    | .ok (.authorized info), not => exact absurd rfl (not info)
    | .ok (.rateLimited _), _ | .error .durationOverflow, _ | .error (.cacheUpdateFail _), _ =>
      cases Option.some.inj known
      exact ⟨le, ready'⟩
  refine follows_limitCheckAndUpdate debiting_sides ?_ ?_ ?_ ?_ ?_
  · intro ℓ₁ ℓ₂ r le fact
    obtain ⟨may, follows⟩ := fact
    match r, may, follows with
    | .ok (.authorized info), may, follows =>
      cases may with
      | authorized _ written unnoted =>
        refine ⟨.authorized info (le.written.trans written) (le.noted.trans unnoted), fun _ ℓ₃ known => ?_⟩
        cases Option.some.inj known
        exact le.written.trans (follows () _ rfl)
      | other _ _ notAuthorized => exact absurd rfl (notAuthorized info)
    | .ok (.rateLimited _), _, follows | .error .durationOverflow, _, follows
    | .error (.cacheUpdateFail _), _, follows =>
      obtain ⟨earlier, ready'⟩ := follows () ℓ₁ rfl
      exact noted (by rintro _ ⟨⟩) (earlier.trans le) (ready'.le le)
  · exact fun _ => noted (by rintro _ ⟨⟩) (.refl ℓ) ready
  · exact fun _ _ _ => noted (by rintro _ ⟨⟩) (.refl ℓ) ready
  · exact fun _ _ _ _ => noted (by rintro _ ⟨⟩) (.refl ℓ) ready
  · intro app' info pass ℓ₁ le
    refine ⟨.write app app' cas now info (le.reads read) (le.time.trans time) (ready.le le) pass, ?_⟩
    intro r ℓ₂ known
    cases r with
    | ok =>
      cases Option.some.inj known
      refine ⟨.authorized info rfl (ready.le le).noted, fun _ ℓ₃ known => ?_⟩
      cases Option.some.inj known
      exact rfl
    | error e =>
      cases Option.some.inj known
      exact noted (by rintro _ ⟨⟩) le (ready.le le)

theorem debiting_getApplicationFromCache {key : CacheKey} (same : key.asString = K) :
    Follows (debiting K data) (fun ℓ' r => ℓ.Le ℓ' ∧ ∀ app cas, r = .ok (app, cas) → (app, cas) ∈ ℓ'.reads)
      (getApplicationFromCache key) ℓ := by
  refine ⟨.read _, fun r ℓ' known => ?_⟩
  have le := Debiting.read_le known
  simp only [debiting, Debiting.next, if_pos same] at known
  split at known
  · cases Option.some.inj known
    refine ⟨le, ?_⟩
    rintro _ _ ⟨⟩
    exact List.mem_cons_self
  · cases known

/-- A debit is noted before the request is answered. -/
theorem debiting_onAuthorizedTry {f : CacheFilter} {queueId cas : Nat} {now : Duration}
    {info : RateLimitInfo} (settled : ℓ.Settled) :
    Follows (debiting K data) (fun ℓ' _ => ℓ'.Settled) (f.onAuthorizedTry queueId now cas info) ℓ := by
  have report : Follows (debiting K data) (fun ℓ' _ => ℓ'.Settled)
      ((do
        let _ ← (f.withRateLimitInfo info).reportToSingleton queueId now
        resumeHttpRequest
        pure (f.withRateLimitInfo info, .ok ())) : HostProg (CacheFilter × Except CacheHitError Unit))
      ℓ := by
    refine debiting_idle rfl fun r => ?_
    have resumed : Follows (debiting K data) (fun ℓ' _ => ℓ'.Settled)
        (do
          resumeHttpRequest
          pure (f.withRateLimitInfo info, (.ok () : Except CacheHitError Unit))) ℓ :=
      debiting_idle rfl fun _ => settled
    cases r <;> exact resumed
  unfold CacheFilter.onAuthorizedTry onlyIf
  by_cases zero : cas = 0
  · simp only [zero, if_true]
    exact debiting_idle rfl fun _ => report
  · simp only [zero, if_false]
    exact report

theorem debiting_cacheHitTries {f : CacheFilter} {queueId tries cas : Nat} {now : Duration}
    {app : Application} (key : f.state.cacheKey.asString = K) (read : (app, cas) ∈ ℓ.reads)
    (time : ℓ.time = some now) (ready : ℓ.Ready) :
    Follows (debiting K f.state.reqData) (fun ℓ' _ => ℓ'.Settled)
      (CacheFilter.cacheHitTries queueId now tries f app cas) ℓ := by
  let Inv (_ : Nat) (ℓ' : Debiting) (app : Application) (cas : Nat) : Prop :=
    (app, cas) ∈ ℓ'.reads ∧ ℓ'.time = some now ∧ ℓ'.Ready
  refine follows_cacheHitTries f Inv ?_ ?_ ⟨read, time, ready⟩
  · intro ℓ₁ app cas fact
    obtain ⟨_, _, ready⟩ := fact
    exact debiting_idle rfl fun _ => ready.settled
  · intro tries ℓ₁ app cas fact
    obtain ⟨read, time, ready⟩ := fact
    refine (debiting_limitCheck read time ready).mono fun ℓ₂ result outcome => ?_
    match result, outcome with
    | .ok (.authorized info), settled => exact debiting_onAuthorizedTry settled
    | .ok (.rateLimited info), ⟨_, ready₂⟩ =>
      exact debiting_idle rfl fun _ => ready₂.settled
    | .error .durationOverflow, ⟨_, ready₂⟩ => exact ready₂.settled
    | .error (.cacheUpdateFail _), ⟨le, ready₂⟩ =>
      refine (debiting_getApplicationFromCache key).mono ?_
      intro ℓ₃ fetched fact
      obtain ⟨le₃, read₃⟩ := fact
      cases fetched with
      | error e => exact (ready₂.le le₃).settled
      | ok pair => exact ⟨read₃ _ _ rfl, le₃.time.trans (le.time.trans time), ready₂.le le₃⟩

theorem debiting_handleCacheHit {f : CacheFilter} {app : Application} {cas : Nat}
    (key : f.state.cacheKey.asString = K) (read : (app, cas) ∈ ℓ.reads) (ready : ℓ.Ready) :
    Follows (debiting K f.state.reqData) (fun ℓ' _ => ℓ'.Settled) (f.handleCacheHit app cas) ℓ := by
  rw [handleCacheHit_eq]
  refine debiting_idle rfl fun _ => ?_
  refine debiting_idle rfl fun queue => ?_
  cases queue with
  | none => exact ready.settled
  | some queueId =>
    refine ⟨.other _ (by rintro _ _ _ ⟨⟩) (by rintro _ ⟨⟩), fun now ℓ' known => ?_⟩
    cases now with
    | none =>
      cases Option.some.inj known
      exact ready.settled
    | some now =>
      cases Option.some.inj known
      cases addHierarchyToMetrics app.metricHierarchy f.state.reqData.metrics with
      | none => trivial
      | some _ => exact debiting_cacheHitTries key read rfl ⟨ready.written, ready.noted⟩

theorem debiting_updateApplicationCache {reqTime : Duration}
    (key : (⟨data.serviceId, data.appId⟩ : CacheKey).asString = K) (time : ℓ.time = some reqTime)
    (ready : ℓ.Ready) :
    Follows (debiting K data) (fun ℓ' _ => ℓ'.Settled)
      (SingletonService.updateApplicationCache data reqTime) ℓ := by
  refine follows_bind.mpr ((debiting_getApplicationFromCache key).mono ?_)
  intro ℓ₁ found fact
  obtain ⟨le, read⟩ := fact
  cases found with
  | error e => exact (ready.le le).settled
  | ok pair =>
    refine follows_bind.mpr ((debiting_limitCheck (read _ _ rfl) (le.time.trans time) (ready.le le)).mono ?_)
    intro ℓ₂ result outcome
    match result, outcome with
    | .ok (.authorized info), settled => exact settled
    | .ok (.rateLimited info), ⟨_, ready₂⟩ => exact ready₂.settled
    | .error .durationOverflow, ⟨_, ready₂⟩ => exact ready₂.settled
    | .error (.cacheUpdateFail _), ⟨_, ready₂⟩ => exact ready₂.settled

theorem Debiter.follows {party : Debiter} (key : party.cacheKey.asString = K) :
    Follows (debiting K party.data) (fun ℓ _ => ℓ.Settled) party.program { time := party.reqTime } := by
  cases party with
  | filter f =>
    refine follows_bind.mpr ((debiting_getApplicationFromCache key).mono ?_)
    intro ℓ₁ found fact
    obtain ⟨le, read⟩ := fact
    have ready : ℓ₁.Ready := ⟨le.written, le.noted⟩
    cases found with
    | error e => exact ready.settled
    | ok pair =>
      exact follows_bind.mpr ((debiting_handleCacheHit key (read _ _ rfl) ready).mono fun _ _ => id)
  | singleton data reqTime =>
    exact follows_bind.mpr ((debiting_updateApplicationCache key rfl ⟨rfl, rfl⟩).mono fun _ _ => id)

/-! The invariant -/

variable {party : ι → Debiter} {initial : Application} {t : List (ι × HostEvent)}

omit [DecidableEq ι] in
theorem storedAt_append (i : ι) (e : HostEvent) :
    storedAt K (t ++ [(i, e)]) = storedAt K t ++ ((storedBy K e).map fun value => (i, value)).toList := by
  simp only [storedAt, List.filterMap_append]
  cases here : storedBy K e <;> simp [here]

theorem storesOf_append (i j : ι) (e : HostEvent) :
    storesOf K (t ++ [(i, e)]) j =
      storesOf K t j + if i = j ∧ (storedBy K e).isSome then 1 else 0 := by
  simp only [storesOf, storedAt_append, List.filter_append, List.length_append]
  cases storedBy K e with
  | none => simp
  | some value => by_cases same : i = j <;> simp [same]

theorem authorizationsOf_append (i j : ι) (e : HostEvent) :
    authorizationsOf (t ++ [(i, e)]) j =
      authorizationsOf t j + if i = j ∧ isAuthorized e = true then 1 else 0 := by
  simp only [authorizationsOf, List.countP_append, List.countP_singleton, Bool.and_eq_true,
    decide_eq_true_eq]

omit [DecidableEq ι] in
theorem CheckedAt.mono {t' : List (ι × HostEvent)} {self : Debiter} {i : ι} {now : Duration}
    (checked : CheckedAt self t i now) : CheckedAt self (t ++ t') i now :=
  checked.imp_right (List.mem_append_left t')

omit [DecidableEq ι] in
theorem DebitBy.mono {t' : List (ι × HostEvent)} {i : ι} {app app' : Application}
    (debit : DebitBy party t i app app') : DebitBy party (t ++ t') i app app' := by
  obtain ⟨now, info, checked, pass, debits⟩ := debit
  exact ⟨now, info, checked.mono, pass, debits⟩

omit [DecidableEq ι] in
/-- The key of the application is not changed by debits. -/
theorem applied_cacheKey {debits : List (ι × Application)} {last : Application}
    (applied : Applied (DebitBy party t) initial debits last) : last.cacheKey = initial.cacheKey :=
  applied.invariant (fun app => app.cacheKey = initial.cacheKey) rfl
    fun _ _ _ ⟨_, _, _, _, debits⟩ same => debits.cacheKey.trans same

/-- What has been stored for the application, and what is stored now. -/
def DebitHistory (K : Str) (party : ι → Debiter) (initial : Application) (d : SharedData)
    (t : List (ι × HostEvent)) : Prop :=
  ∃ debits last cas,
    storedAt K t = debits.map (fun debit => (debit.1, some (.application debit.2))) ∧
    Applied (DebitBy party t) initial debits last ∧
    d.entry K = some (some (.application last), cas)

structure LinearInv (K : Str) (party : ι → Debiter) (initial : Application) (d : SharedData)
    (t : List (ι × HostEvent)) (known : ι → Debiting) : Prop where
  history : DebitHistory K party initial d t
  reads : ∀ i app cas, (app, cas) ∈ (known i).reads →
    app.cacheKey.asString = K ∧ d.Pins K (some (.application app)) cas
  time : ∀ i now, (known i).time = some now → CheckedAt (party i) t i now
  written : ∀ i, storesOf K t i = (known i).written.toNat
  noted : ∀ i, authorizationsOf t i = (known i).noted.toNat
  backed : ∀ i, (known i).noted = true → (known i).written = true

variable {d d' : SharedData} {known : ι → Debiting}

/-- What has to be shown of the party that has made a call. -/
theorem LinearInv.moved (inv : LinearInv K party initial d t known)
    (own : initial.cacheKey.asString = K) {i : ι} {e : HostEvent} {ℓ' : Debiting}
    (history : DebitHistory K party initial d' (t ++ [(i, e)]))
    (pins : ∀ value cas, d.Pins K value cas → d'.Pins K value cas)
    (reads : ∀ app cas, (app, cas) ∈ ℓ'.reads →
      (app, cas) ∈ (known i).reads ∨ d'.entry K = some (some (.application app), cas))
    (time : ∀ now, ℓ'.time = some now →
      (known i).time = some now ∨ e = ⟨.getCurrentTime, some now⟩)
    (written : ℓ'.written.toNat = (known i).written.toNat + if (storedBy K e).isSome then 1 else 0)
    (noted : ℓ'.noted.toNat = (known i).noted.toNat + if isAuthorized e = true then 1 else 0)
    (backed : ℓ'.noted = true → ℓ'.written = true) :
    LinearInv K party initial d' (t ++ [(i, e)]) (Function.update known i ℓ') where
  history := history
  reads := by
    intro j app cas member
    by_cases same : j = i
    · subst same
      rw [Function.update_self] at member
      rcases reads app cas member with old | entry
      · exact ⟨(inv.reads j app cas old).1, pins _ _ (inv.reads j app cas old).2⟩
      · obtain ⟨_, last, _, _, applied, entry'⟩ := history
        cases Option.some.inj (entry.symm.trans entry')
        exact ⟨by rw [applied_cacheKey applied, own], SharedData.pins_of_entry entry⟩
    · rw [Function.update_of_ne same] at member
      exact ⟨(inv.reads j app cas member).1, pins _ _ (inv.reads j app cas member).2⟩
  time := by
    intro j now at_
    by_cases same : j = i
    · subst same
      rw [Function.update_self] at at_
      rcases time now at_ with old | rfl
      · exact (inv.time j now old).mono
      · exact Or.inr (List.mem_append_right t (List.mem_singleton_self _))
    · rw [Function.update_of_ne same] at at_
      exact (inv.time j now at_).mono
  written := by
    intro j
    rw [storesOf_append, inv.written]
    by_cases same : j = i
    · subst same
      simp only [Function.update_self, written, true_and]
    · simp only [Function.update_of_ne same, Ne.symm same, false_and, if_false, Nat.add_zero]
  noted := by
    intro j
    rw [authorizationsOf_append, inv.noted]
    by_cases same : j = i
    · subst same
      simp only [Function.update_self, noted, true_and]
    · simp only [Function.update_of_ne same, Ne.symm same, false_and, if_false, Nat.add_zero]
  backed := by
    intro j
    by_cases same : j = i
    · subst same
      rw [Function.update_self]
      exact backed
    · rw [Function.update_of_ne same]
      exact inv.backed j

omit [DecidableEq ι] in
/-- A call that stores nothing under the key. -/
theorem DebitHistory.silent (history : DebitHistory K party initial d t) {i : ι} {e : HostEvent}
    (entry : d'.entry K = d.entry K) (stored : storedBy K e = none) :
    DebitHistory K party initial d' (t ++ [(i, e)]) := by
  obtain ⟨debits, last, cas, list, applied, here⟩ := history
  refine ⟨debits, last, cas, ?_, applied.mono fun _ _ _ debit => debit.mono, entry.trans here⟩
  rw [storedAt_append, stored, list]
  exact List.append_nil _

/-- A call that leaves shared data as they are. -/
theorem LinearInv.unwritten (inv : LinearInv K party initial d t known)
    (own : initial.cacheKey.asString = K) {i : ι} {e : HostEvent} {ℓ' : Debiting}
    (stored : storedBy K e = none)
    (reads : ∀ app cas, (app, cas) ∈ ℓ'.reads →
      (app, cas) ∈ (known i).reads ∨ d.entry K = some (some (.application app), cas))
    (time : ∀ now, ℓ'.time = some now →
      (known i).time = some now ∨ e = ⟨.getCurrentTime, some now⟩)
    (written : ℓ'.written = (known i).written)
    (noted : ℓ'.noted.toNat = (known i).noted.toNat + if isAuthorized e = true then 1 else 0)
    (backed : ℓ'.noted = true → ℓ'.written = true) :
    LinearInv K party initial d (t ++ [(i, e)]) (Function.update known i ℓ') := by
  refine inv.moved own (inv.history.silent rfl stored) (fun _ _ => id) reads time ?_ noted backed
  rw [stored, written]
  rfl

/-- A write of something else under another key. -/
theorem LinearInv.elsewhere {h : Host} (inv : LinearInv K party initial h.shared t known)
    (own : initial.cacheKey.asString = K) {i : ι} {key : Str} {value : Option SharedValue}
    {cas : Option Nat} (other : key ≠ K) :
    LinearInv K party initial (Host.exec (.setSharedData key value cas) h).2.shared
      (t ++ [(i, ⟨.setSharedData key value cas, (Host.exec (.setSharedData key value cas) h).1⟩)])
      (Function.update known i (known i)) := by
  have silent : ∀ r, storedBy K ⟨.setSharedData key value cas, r⟩ = none := by
    intro r
    cases r with
    | ok => exact if_neg other
    | error e => rfl
  have entry : (Host.exec (.setSharedData key value cas) h).2.shared.entry K = h.shared.entry K := by
    rcases h.shared.set_cases key value cas with put | mismatch
    · simp only [Host.exec, put]
      exact h.shared.put_entry_ne value (Ne.symm other)
    · simp only [Host.exec, mismatch]
  refine inv.moved own (inv.history.silent entry (silent _)) ?_ (fun _ _ => Or.inl) (fun _ => Or.inl) ?_ rfl
    (inv.backed i)
  · intro v c pins
    rcases h.shared.set_cases key value cas with put | mismatch
    · simp only [Host.exec, put]
      exact pins.put _ _
    · simp only [Host.exec, mismatch]
      exact pins
  · simp only [silent, Option.isSome_none, Bool.false_eq_true, if_false, Nat.add_zero]

/-- The write of a debit replaces the application that was read, or fails. -/
theorem LinearInv.debit {h : Host} (inv : LinearInv K party initial h.shared t known)
    (own : initial.cacheKey.asString = K) {i : ι} {app app' : Application} {cas : Nat} {now : Duration}
    {info : RateLimitInfo} (read : (app, cas) ∈ (known i).reads) (time : (known i).time = some now)
    (ready : (known i).Ready)
    (pass : limitCheck now (party i).data.metrics.entries app {} = .pass app' info) :
    ∃ ℓ', (known i).next K (.setSharedData app.cacheKey.asString (some (.application app')) (some cas))
        (Host.exec (.setSharedData app.cacheKey.asString (some (.application app')) (some cas)) h).1 =
          some ℓ' ∧
      LinearInv K party initial
        (Host.exec (.setSharedData app.cacheKey.asString (some (.application app')) (some cas)) h).2.shared
        (t ++ [(i, ⟨.setSharedData app.cacheKey.asString (some (.application app')) (some cas),
          (Host.exec (.setSharedData app.cacheKey.asString (some (.application app')) (some cas)) h).1⟩)])
        (Function.update known i ℓ') := by
  obtain ⟨key, pins⟩ := inv.reads i app cas read
  rw [key]
  rcases pins.set (some (.application app')) with ⟨entry, set⟩ | set
  · refine ⟨{ known i with written := true }, by simp only [Host.exec, set]; rfl, ?_⟩
    simp only [Host.exec, set]
    have stored : storedBy K ⟨.setSharedData K (some (.application app')) (some cas), .ok ()⟩ =
        some (some (.application app')) := if_pos rfl
    refine inv.moved own ?_ (fun _ _ pins => pins.put _ _) (fun _ _ => Or.inl) (fun _ => Or.inl) ?_ rfl
      fun _ => rfl
    · obtain ⟨debits, last, _, list, applied, here⟩ := inv.history
      cases Option.some.inj (entry.symm.trans here)
      have nodup := (party i).data.metrics.nodupKeys
      refine ⟨debits ++ [(i, app')], app', h.shared.nextCas, ?_, ?_, h.shared.put_entry_self K _⟩
      · rw [storedAt_append, stored, list, List.map_append]
        rfl
      · exact .next (applied.mono fun _ _ _ debit => debit.mono)
          ⟨now, info, (inv.time i now time).mono, pass, limitCheck_pass_debits nodup pass⟩
    · rw [stored, ready.written]
      rfl
  · refine ⟨known i, by simp only [Host.exec, set]; rfl, ?_⟩
    simp only [Host.exec, set]
    exact inv.unwritten own rfl (fun _ _ => Or.inl) (fun _ => Or.inl) rfl rfl (inv.backed i)

theorem LinearInv.read {h : Host} (inv : LinearInv K party initial h.shared t known)
    (own : initial.cacheKey.asString = K) {i : ι} (key : Str) :
    ∃ ℓ', (known i).next K (.getSharedData key) (.ok (h.shared.get key)) = some ℓ' ∧
      LinearInv K party initial h.shared (t ++ [(i, ⟨.getSharedData key, .ok (h.shared.get key)⟩)])
        (Function.update known i ℓ') := by
  by_cases same : key = K
  · subst same
    obtain ⟨_, last, cas, _, _, entry⟩ := inv.history
    rw [SharedData.get_present entry]
    refine ⟨{ known i with reads := (last, cas) :: (known i).reads }, if_pos rfl, ?_⟩
    refine inv.unwritten own rfl (fun app cas' member => ?_) (fun _ => Or.inl) rfl rfl (inv.backed i)
    rcases List.mem_cons.mp member with new | old
    · cases new
      exact Or.inr entry
    · exact Or.inl old
  · refine ⟨known i, if_neg same, ?_⟩
    exact inv.unwritten own rfl (fun _ _ => Or.inl) (fun _ => Or.inl) rfl rfl (inv.backed i)

theorem LinearInv.call {h : Host} (inv : LinearInv K party initial h.shared t known)
    (own : initial.cacheKey.asString = K) {i : ι} {c : HostCall}
    (may : DebitCall K (party i).data (known i) c) :
    ∃ ℓ', (known i).next K c (Host.exec c h).1 = some ℓ' ∧
      LinearInv K party initial (Host.exec c h).2.shared (t ++ [(i, ⟨c, (Host.exec c h).1⟩)])
        (Function.update known i ℓ') := by
  cases may with
  | count size cas other =>
    refine ⟨known i, ?_, inv.elsewhere own other⟩
    cases (Host.exec (.setSharedData sharedMemoryCounterKey (some (.memoryCounter size)) cas) h).1 <;> rfl
  | write app app' cas now info read time ready pass => exact inv.debit own read time ready pass
  | authorized info written noted =>
    refine ⟨{ known i with noted := true }, rfl, ?_⟩
    refine inv.unwritten own rfl (fun _ _ => Or.inl) (fun _ => Or.inl) rfl ?_ fun _ => written
    rw [noted]
    rfl
  | other _ notSet notAuthorized =>
    cases c with
    | getSharedData key => exact inv.read own key
    | setSharedData key value cas => exact absurd rfl (notSet key value cas)
    | getCurrentTime =>
      show ∃ ℓ', (known i).next K .getCurrentTime h.clock = some ℓ' ∧
        LinearInv K party initial h.shared (t ++ [(i, ⟨.getCurrentTime, h.clock⟩)])
          (Function.update known i ℓ')
      cases h.clock with
      | none =>
        exact ⟨known i, rfl, inv.unwritten own rfl (fun _ _ => Or.inl) (fun _ => Or.inl) rfl rfl (inv.backed i)⟩
      | some now =>
        refine ⟨{ known i with time := some now }, rfl, ?_⟩
        refine inv.unwritten own rfl (fun _ _ => Or.inl) (fun now' at_ => Or.inr ?_) rfl rfl
          (inv.backed i)
        cases Option.some.inj at_
        rfl
    | limitChecked r =>
      match r, notAuthorized with
      | .ok (.authorized info), notAuthorized => exact absurd rfl (notAuthorized info)
      | .ok (.rateLimited _), _ | .error .durationOverflow, _ | .error (.cacheUpdateFail _), _ =>
        exact ⟨known i, rfl, inv.unwritten own rfl (fun _ _ => Or.inl) (fun _ => Or.inl) rfl rfl (inv.backed i)⟩
    | _ => exact ⟨known i, rfl, inv.unwritten own rfl (fun _ _ => Or.inl) (fun _ => Or.inl) rfl rfl (inv.backed i)⟩

/-! All runs -/

theorem debits_preserved (party : ι → Debiter) (own : initial.cacheKey.asString = K) (guard) :
    Preserved (debitParties ι K) guard (fun i => debiting K (party i).data) (fun _ ℓ _ => ℓ.Settled)
      fun s => LinearInv K party initial s.shared.shared s.trace where
  call := fun _ _ _ _ _ inv _ may _ => inv.call own may
  resume := fun _ _ _ _ _ _ _ _ resumes => False.elim resumes
  env := by
    intro s known _ inv fact
    obtain ⟨clock, dispatch, rfl⟩ | ⟨key, value, other, rfl⟩ := fact
    · exact inv
    · obtain ⟨debits, last, cas, list, applied, entry⟩ := inv.history
      refine ⟨⟨debits, last, cas, list, applied, ?_⟩, fun i app cas member => ?_, inv.time, inv.written,
        inv.noted, inv.backed⟩
      · exact (s.shared.shared.put_entry_ne value (Ne.symm other)).trans entry
      · exact ⟨(inv.reads i app cas member).1, (inv.reads i app cas member).2.put _ _⟩

theorem reach_linearInv {party : ι → Debiter} {h : Host} {cas : Nat} {s : DebitConfig ι}
    (cached : h.shared.entry K = some (some (.application initial), cas))
    (own : initial.cacheKey.asString = K) (same : ∀ i, (party i).cacheKey.asString = K)
    (reach : Reach (debitParties ι K) anyStep (debitStart party h) s) :
    ∃ known, LinearInv K party initial s.shared.shared s.trace known ∧
      ∀ i, Follows (debiting K (party i).data) (fun ℓ _ => ℓ.Settled) (s.procs i) (known i) := by
  have start : LinearInv K party initial h.shared [] fun i => { time := (party i).reqTime } :=
    ⟨⟨[], initial, cas, rfl, .start, cached⟩, fun _ _ _ member => absurd member List.not_mem_nil,
      fun _ _ => Or.inl, fun _ => rfl, fun _ => rfl, (by rintro _ ⟨⟩)⟩
  exact reach.invariant (debits_preserved party own anyStep) ⟨_, start, fun i => (party i).follows (same i)⟩

/-- Debits of a cached application are linearizable. -/
theorem debits_linearized {party : ι → Debiter} {h : Host} {cas : Nat} {s : DebitConfig ι}
    (cached : h.shared.entry K = some (some (.application initial), cas))
    (own : initial.cacheKey.asString = K) (same : ∀ i, (party i).cacheKey.asString = K)
    (reach : Reach (debitParties ι K) anyStep (debitStart party h) s) :
    Linearized K party initial s := by
  have start : LinearInv K party initial h.shared [] fun i => { time := (party i).reqTime } :=
    ⟨⟨[], initial, cas, rfl, .start, cached⟩, fun _ _ _ member => absurd member List.not_mem_nil,
      fun _ _ => Or.inl, fun _ => rfl, fun _ => rfl, (by rintro _ ⟨⟩)⟩
  obtain ⟨known, inv, follows⟩ := reach.invariant (debits_preserved party own anyStep)
    ⟨_, start, fun i => (party i).follows (same i)⟩
  refine ⟨inv.history, fun i => ?_, fun i done => ?_⟩
  · rw [inv.written, inv.noted]
    exact ⟨Bool.toNat_le_toNat (inv.backed i), Bool.toNat_le _⟩
  · have settled := follows i
    rw [done] at settled
    rw [inv.written, inv.noted]
    exact congrArg Bool.toNat settled

/-- An application with five hits left. -/
def limited : Application :=
  cachedWith ((∅ : HashMap UsageReport).insert "hits".toList
    { periodWindow := ⟨.fromSecs 950400, .fromSecs 1036800, .day⟩, leftHits := 5, maxValue := 10 })

def limitedHost : Host :=
  { quietHost with shared := SharedData.empty.put limited.cacheKey.asString (some (.application limited)) }

/-- Two threads that have read the same application, and then write it: the
write of the second one is refused, and it tries again. -/
def raced : DebitConfig Bool :=
  (debitStart (fun _ => .filter (hitContext 2)) limitedHost).play
    (debitParties Bool limited.cacheKey.asString)
    (List.replicate 5 false ++ List.replicate 5 true ++ List.replicate 15 false ++ List.replicate 25 true)

theorem debits_linearized_raced :
    Linearized limited.cacheKey.asString (fun _ => .filter (hitContext 2)) limited raced :=
  debits_linearized rfl rfl (fun _ => rfl) (Reach.play _ .start)

example : storesOf limited.cacheKey.asString raced.trace true = 1 := by decide

example : (raced.shared.shared.value limited.cacheKey.asString).any fun
    | .application app => (app.localState.lookup "hits".toList).any fun report => report.leftHits = 3
    | _ => false := by decide

end ThreescaleCache
