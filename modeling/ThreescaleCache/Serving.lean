import ThreescaleCache.CacheHitRules
import ThreescaleCache.CalloutLock

namespace ThreescaleCache
open Interaction

/-! What a party does that serves requests: one protocol that all callbacks
of the filter and the singleton follow. -/

/-- The application is left by a limit check that passed. -/
def Passes (app app' : Application) : Prop :=
  ∃ now metrics info, limitCheck now metrics app {} = .pass app' info

theorem Passes.cacheKey {app app' : Application} (passes : Passes app app') :
    app'.cacheKey = app.cacheKey := by
  obtain ⟨_, _, _, pass⟩ := passes
  exact limitCheck_pass_cacheKey pass

/-- The form of the keys of callout-locks. -/
def isLockKey (key : Str) : Bool := "CL_".toList.isPrefixOf key && '_' ∈ key.drop 3

theorem isLockKey_calloutLockKey (k : CacheKey) : isLockKey (calloutLockKey k) = true := by
  simp [isLockKey, calloutLockKey, CacheKey.asString]

/-- How far the request of a party has come. `granted` is the lock key that it
acquired, `wrote` tells of a write that overwrites, `held` and `reads` are the
keys and the applications that it has read a value of, and `vacant` is a key that
has no value since its last call. `refused` tells of a call out that the host
did not accept, and `strange` of replies that shared data never give: errors of
calls that cannot fail, and other values under a lock key. -/
structure Progress where
  granted : Option Str := none
  dispatched : Bool := false
  refused : Bool := false
  answered : Bool := false
  wrote : Bool := false
  held : List Str := []
  reads : List (Str × Application × Nat) := []
  vacant : Option Str := none
  strange : Bool := false

namespace Progress

def next (ℓ : Progress) : HostEvent → Progress
  | ⟨.getSharedData key, .ok (some (.application app), some cas)⟩ =>
    { ℓ with reads := (key, app, cas) :: ℓ.reads, held := key :: ℓ.held, strange := ℓ.strange || isLockKey key }
  | ⟨.getSharedData key, .ok (some (.calloutLock _), _)⟩ => { ℓ with held := key :: ℓ.held }
  | ⟨.getSharedData key, .ok (none, _)⟩ => { ℓ with vacant := some key }
  | ⟨.getSharedData key, .ok (some _, _)⟩ =>
    { ℓ with held := key :: ℓ.held, strange := ℓ.strange || isLockKey key }
  | ⟨.getSharedData _, .error _⟩ => { ℓ with strange := true }
  | ⟨.setSharedData key (some (.calloutLock v)) _, .ok ()⟩ =>
    { ℓ with granted := if v.waiters = [] then some key else ℓ.granted, vacant := none }
  | ⟨.setSharedData _ (some (.application _)) cas, .ok ()⟩ =>
    { ℓ with wrote := ℓ.wrote || cas = some 0, vacant := none }
  | ⟨.setSharedData _ (some _) _, .ok ()⟩ => { ℓ with vacant := none }
  | ⟨.setSharedData key none _, .ok ()⟩ => { ℓ with vacant := some key, held := [] }
  | ⟨.dispatchHttpCall _, .ok _⟩ => { ℓ with dispatched := true }
  | ⟨.dispatchHttpCall _, .error _⟩ => { ℓ with refused := true }
  | ⟨.resumeHttpRequest, _⟩ => { ℓ with answered := true }
  | ⟨.sendHttpResponse .., _⟩ => { ℓ with answered := true }
  | _ => ℓ

/-- No lock acquired and no answer given. -/
structure Fresh (ℓ : Progress) : Prop where
  granted : ℓ.granted = none
  dispatched : ℓ.dispatched = false
  answered : ℓ.answered = false
  wrote : ℓ.wrote = false

/-- The lock `key` is acquired, and the authorize call is still to be made. -/
structure Granted (ℓ : Progress) (key : Str) : Prop where
  granted : ℓ.granted = some key
  dispatched : ℓ.dispatched = false
  answered : ℓ.answered = false
  wrote : ℓ.wrote = false

/-- The authorize call of the request is out, under the lock `key`. -/
structure Called (ℓ : Progress) (key : Str) : Prop where
  granted : ℓ.granted = some key
  dispatched : ℓ.dispatched = true
  answered : ℓ.answered = false
  wrote : ℓ.wrote = false

/-- The same progress, and at least as much read. -/
structure Le (ℓ ℓ' : Progress) : Prop where
  granted : ℓ'.granted = ℓ.granted
  dispatched : ℓ'.dispatched = ℓ.dispatched
  refused : ℓ'.refused = ℓ.refused
  answered : ℓ'.answered = ℓ.answered
  wrote : ℓ'.wrote = ℓ.wrote
  held : ℓ.held ⊆ ℓ'.held
  reads : ℓ.reads ⊆ ℓ'.reads

theorem Le.refl (ℓ : Progress) : Le ℓ ℓ := ⟨rfl, rfl, rfl, rfl, rfl, fun _ => id, fun _ => id⟩

theorem Le.trans {ℓ₁ ℓ₂ ℓ₃ : Progress} (first : Le ℓ₁ ℓ₂) (second : Le ℓ₂ ℓ₃) : Le ℓ₁ ℓ₃ where
  granted := second.granted.trans first.granted
  dispatched := second.dispatched.trans first.dispatched
  refused := second.refused.trans first.refused
  answered := second.answered.trans first.answered
  wrote := second.wrote.trans first.wrote
  held := fun _ member => second.held (first.held member)
  reads := fun _ member => second.reads (first.reads member)

theorem Fresh.le {ℓ ℓ' : Progress} (fresh : Fresh ℓ) (le : Le ℓ ℓ') : Fresh ℓ' :=
  ⟨le.granted.trans fresh.granted, le.dispatched.trans fresh.dispatched,
    le.answered.trans fresh.answered, le.wrote.trans fresh.wrote⟩

end Progress

/-- An application in hand with its CAS: it was read, or it was formed from
the response to the party's own call, and then it has the CAS 0. -/
def InHand (first : Application → Prop) (ℓ : Progress) (app : Application) (cas : Nat) : Prop :=
  (∃ key, (key, app, cas) ∈ ℓ.reads) ∨
    (cas = 0 ∧ first app ∧ ℓ.dispatched = true ∧ ℓ.answered = false ∧ ℓ.wrote = false)

theorem InHand.le {first : Application → Prop} {ℓ ℓ' : Progress} {app : Application} {cas : Nat}
    (inHand : InHand first ℓ app cas) (le : ℓ.Le ℓ') : InHand first ℓ' app cas := by
  rcases inHand with ⟨key, read⟩ | ⟨zero, formed, dispatched, answered, wrote⟩
  · exact Or.inl ⟨key, le.reads read⟩
  · exact Or.inr ⟨zero, formed, le.dispatched.trans dispatched, le.answered.trans answered,
      le.wrote.trans wrote⟩

/-- The calls of a serving party. `first` is what is known of applications
formed from a response, `safe` of the user_keys that are mapped. -/
inductive ServingCall (first : Application → Prop) (safe : Str → Prop) (ℓ : Progress) :
    HostCall → Prop
  | side (c : HostCall) (call : SideCall c) : ServingCall first safe ℓ c
  | application (app app' : Application) (cas : Nat) (inHand : InHand first ℓ app cas)
      (left : app' = app ∨ Passes app app') :
      ServingCall first safe ℓ
        (.setSharedData app.cacheKey.asString (some (.application app')) (some cas))
  | mapUserKey (userKey : Str) (id : AppId) (cas : Option Nat) (isSafe : safe userKey) :
      ServingCall first safe ℓ (.setSharedData userKey (some (.appId id)) cas)
  | acquire (key : Str) (v : CalloutLockValue) (cas : Nat) (isKey : isLockKey key = true)
      (new : v.waiters = []) (fresh : ℓ.Fresh) :
      ServingCall first safe ℓ (.setSharedData key (some (.calloutLock v)) (some cas))
  | wait (key : Str) (v : CalloutLockValue) (cas : Nat) (isKey : isLockKey key = true)
      (added : v.waiters ≠ []) (seen : key ∈ ℓ.held) :
      ServingCall first safe ℓ (.setSharedData key (some (.calloutLock v)) (some cas))
  | erase (key : Str) (own : ℓ.granted = some key) :
      ServingCall first safe ℓ (.setSharedData key none none)
  | dispatch (call : HttpCall) (granted : ℓ.granted.isSome) (unanswered : ℓ.answered = false) :
      ServingCall first safe ℓ (.dispatchHttpCall call)
  | other (c : HostCall) (notSet : ∀ key value cas, c ≠ .setSharedData key value cas)
      (notDispatch : ∀ call, c ≠ .dispatchHttpCall call) : ServingCall first safe ℓ c

def serving (first : Application → Prop) (safe : Str → Prop) : HostProtocol Progress where
  may := ServingCall first safe
  next := fun ℓ c reply => some (ℓ.next ⟨c, reply⟩)

variable {first : Application → Prop} {safe : Str → Prop} {ℓ : Progress}

theorem serving_keeps : (serving first safe).Keeps Progress.Le SideCall where
  refl := .refl
  trans := .trans
  may := fun _ c side => .side c side
  next := by
    intro ℓ c reply ℓ' side known
    cases Option.some.inj known
    cases side with
    | read key =>
      match reply with
      | .error _ | .ok (none, _) => exact ⟨rfl, rfl, rfl, rfl, rfl, fun _ => id, fun _ => id⟩
      | .ok (some (.application _), some _) =>
        exact ⟨rfl, rfl, rfl, rfl, rfl, fun _ => List.mem_cons_of_mem _, fun _ => List.mem_cons_of_mem _⟩
      | .ok (some (.application _), none) | .ok (some (.appId _), _) | .ok (some (.memoryCounter _), _)
      | .ok (some (.calloutLock _), _) =>
        exact ⟨rfl, rfl, rfl, rfl, rfl, fun _ => List.mem_cons_of_mem _, fun _ => id⟩
    | count size cas =>
      cases reply with
      | ok => exact ⟨rfl, rfl, rfl, rfl, rfl, fun _ => id, fun _ => id⟩
      | error e => exact .refl ℓ

/-- The calls that leave no trace in the progress. -/
def isQuiet : HostCall → Bool
  | .getSharedData _ => false
  | .setSharedData .. => false
  | .dispatchHttpCall _ => false
  | .resumeHttpRequest => false
  | .sendHttpResponse .. => false
  | _ => true

theorem serving_quiet {α : Type} {c : HostCall} {k : c.Reply → HostProg α} {Q : Progress → α → Prop}
    (quiet : isQuiet c = true) (rest : ∀ r, Follows (serving first safe) Q (k r) ℓ) :
    Follows (serving first safe) Q (.call c k) ℓ := by
  refine ⟨.other c ?_ ?_, fun r ℓ' known => ?_⟩
  · intro key value cas same
    subst same
    cases quiet
  · intro call same
    subst same
    cases quiet
  · cases Option.some.inj known
    have same : ℓ.next ⟨c, r⟩ = ℓ := by
      cases c <;> first | rfl | cases quiet
    rw [same]
    exact rest r

theorem serving_quiet_bind {α : Type} {c : HostCall} {f : c.Reply → HostProg α}
    {Q : Progress → α → Prop} (quiet : isQuiet c = true)
    (rest : ∀ r, Follows (serving first safe) Q (f r) ℓ) :
    Follows (serving first safe) Q (ask c >>= f) ℓ :=
  serving_quiet quiet rest

/-- Answering the request is always allowed. -/
theorem serving_answer {α : Type} {c : HostCall} {k : c.Reply → HostProg α} {Q : Progress → α → Prop}
    (answer : c = .resumeHttpRequest ∨ ∃ status body, c = .sendHttpResponse status body)
    (rest : ∀ r, Follows (serving first safe) Q (k r) { ℓ with answered := true }) :
    Follows (serving first safe) Q (.call c k) ℓ := by
  rcases answer with rfl | ⟨status, body, rfl⟩
  · refine ⟨.other _ (by rintro _ _ _ ⟨⟩) (by rintro _ ⟨⟩), fun r ℓ' known => ?_⟩
    cases Option.some.inj known
    exact rest r
  · refine ⟨.other _ (by rintro _ _ _ ⟨⟩) (by rintro _ ⟨⟩), fun r ℓ' known => ?_⟩
    cases Option.some.inj known
    exact rest r

/-! Failures -/

/-- The progress of the callout is not changed, whatever was answered. -/
structure Progress.SameCall (ℓ ℓ' : Progress) : Prop where
  granted : ℓ'.granted = ℓ.granted
  dispatched : ℓ'.dispatched = ℓ.dispatched
  refused : ℓ'.refused = ℓ.refused

theorem Progress.SameCall.refl (ℓ : Progress) : SameCall ℓ ℓ := ⟨rfl, rfl, rfl⟩

theorem Progress.SameCall.trans {ℓ₁ ℓ₂ ℓ₃ : Progress} (first : SameCall ℓ₁ ℓ₂)
    (second : SameCall ℓ₂ ℓ₃) : SameCall ℓ₁ ℓ₃ :=
  ⟨second.granted.trans first.granted, second.dispatched.trans first.dispatched,
    second.refused.trans first.refused⟩

theorem Progress.Le.sameCall {ℓ ℓ' : Progress} (le : Le ℓ ℓ') : SameCall ℓ ℓ' :=
  ⟨le.granted, le.dispatched, le.refused⟩

theorem serving_inRequestFailure (f : CacheFilter) :
    Follows (serving first safe) (fun ℓ' r => ℓ.SameCall ℓ' ∧ lockKey r.1 = lockKey f)
      f.inRequestFailure ℓ := by
  unfold CacheFilter.inRequestFailure
  by_cases deny : f.config.failureModeDeny = true
  · simp only [CacheFilter.withRateLimitInfo, deny, if_true]
    exact serving_answer (Or.inr ⟨_, _, rfl⟩) fun _ => ⟨⟨rfl, rfl, rfl⟩, rfl⟩
  · simp only [CacheFilter.withRateLimitInfo, deny]
    exact ⟨.refl ℓ, rfl⟩

theorem serving_requestProcessFailure (f : CacheFilter) :
    Follows (serving first safe) (fun ℓ' _ => ℓ.SameCall ℓ') f.requestProcessFailure ℓ := by
  unfold CacheFilter.requestProcessFailure onlyIf
  by_cases deny : f.config.failureModeDeny = true
  · simp only [CacheFilter.withRateLimitInfo, deny, if_true]
    exact serving_answer (Or.inr ⟨_, _, rfl⟩) fun _ => serving_answer (Or.inl rfl) fun _ => ⟨rfl, rfl, rfl⟩
  · simp only [CacheFilter.withRateLimitInfo, deny]
    exact serving_answer (Or.inl rfl) fun _ => ⟨rfl, rfl, rfl⟩

/-! The cache hit -/

theorem serving_getApplicationFromCache (key : CacheKey) :
    Follows (serving first safe)
      (fun ℓ' r => ℓ.Le ℓ' ∧ ∀ app cas, r = .ok (app, cas) → InHand first ℓ' app cas)
      (getApplicationFromCache key) ℓ := by
  have le : Follows (serving first safe) (fun ℓ' _ => ℓ.Le ℓ') (getApplicationFromCache key) ℓ :=
    serving_keeps.follows (only_getApplicationFromCache key) ℓ
  refine ⟨le.1, fun r ℓ' known => ?_⟩
  have later := le.2 r ℓ' known
  cases Option.some.inj known
  match r, later with
  | .error _, later => exact ⟨later, by rintro _ _ ⟨⟩⟩
  | .ok (some (.application app), some cas), later =>
    refine ⟨later, ?_⟩
    rintro _ _ ⟨⟩
    exact Or.inl ⟨_, List.mem_cons_self⟩
  | .ok (some (.application _), none), later | .ok (some (.appId _), none), later
  | .ok (some (.memoryCounter _), none), later | .ok (some (.calloutLock _), none), later
  | .ok (some (.appId _), some _), later | .ok (some (.memoryCounter _), some _), later
  | .ok (some (.calloutLock _), some _), later | .ok (none, _), later =>
    exact ⟨later, by rintro _ _ ⟨⟩⟩

theorem serving_limitCheck {data : ThreescaleData} {app : Application} {cas : Nat} {now : Duration}
    (inHand : InHand first ℓ app cas) :
    Follows (serving first safe) (fun ℓ' _ => ℓ.SameCall ℓ')
      (limitCheckAndUpdateApplication data app cas now) ℓ := by
  have noted : ∀ {ℓ' result}, ℓ.SameCall ℓ' →
      Follows (serving first safe) (fun ℓ' _ => ℓ.SameCall ℓ') (noteLimitCheck result) ℓ' :=
    fun same => serving_quiet rfl fun _ => same
  refine follows_limitCheckAndUpdate (.of_keeps serving_keeps) ?_ ?_ ?_ ?_ ?_
  · intro ℓ₁ ℓ₂ r le fact
    obtain ⟨_, follows⟩ := fact
    exact noted ((follows () ℓ₁ rfl).trans le.sameCall)
  · exact fun _ => noted (.refl ℓ)
  · exact fun _ _ _ => noted (.refl ℓ)
  · exact fun _ _ _ _ => noted (.refl ℓ)
  · intro app' info pass ℓ₁ le
    refine ⟨.application app app' cas (inHand.le le) (Or.inr ⟨_, _, _, pass⟩), fun r ℓ₂ known => ?_⟩
    cases Option.some.inj known
    cases r with
    | ok => exact noted ⟨le.granted, le.dispatched, le.refused⟩
    | error e => exact noted le.sameCall

theorem serving_reportToSingleton {f : CacheFilter} {queueId : Nat} {now : Duration} :
    Follows (serving first safe) (fun ℓ' _ => ℓ' = ℓ) (f.reportToSingleton queueId now) ℓ :=
  serving_quiet rfl fun r => by cases r <;> exact rfl

theorem serving_onAuthorizedTry {f : CacheFilter} {queueId cas : Nat} {now : Duration}
    {info : RateLimitInfo} :
    Follows (serving first safe) (fun ℓ' _ => ℓ.SameCall ℓ') (f.onAuthorizedTry queueId now cas info) ℓ := by
  have report : Follows (serving first safe) (fun ℓ' _ => ℓ.SameCall ℓ')
      ((do
        let _ ← (f.withRateLimitInfo info).reportToSingleton queueId now
        resumeHttpRequest
        pure (f.withRateLimitInfo info, .ok ())) : HostProg (CacheFilter × Except CacheHitError Unit))
      ℓ := by
    refine follows_bind.mpr (serving_reportToSingleton.mono ?_)
    intro ℓ' _ same
    subst same
    exact serving_answer (Or.inl rfl) fun _ => ⟨rfl, rfl, rfl⟩
  unfold CacheFilter.onAuthorizedTry onlyIf
  by_cases zero : cas = 0
  · simp only [zero, if_true]
    exact serving_quiet rfl fun _ => report
  · simp only [zero, if_false]
    exact report

theorem serving_cacheHitTries {f : CacheFilter} {queueId tries cas : Nat} {now : Duration}
    {app : Application} (inHand : InHand first ℓ app cas) :
    Follows (serving first safe) (fun ℓ' _ => ℓ.SameCall ℓ')
      (CacheFilter.cacheHitTries queueId now tries f app cas) ℓ := by
  let Inv (_ : Nat) (ℓ' : Progress) (app : Application) (cas : Nat) : Prop :=
    ℓ.SameCall ℓ' ∧ InHand first ℓ' app cas
  refine follows_cacheHitTries f Inv ?_ ?_ ⟨.refl ℓ, inHand⟩
  · intro ℓ₁ app cas fact
    obtain ⟨same, _⟩ := fact
    exact serving_answer (Or.inl rfl) fun _ => ⟨same.granted, same.dispatched, same.refused⟩
  · intro tries ℓ₁ app cas fact
    obtain ⟨same, inHand⟩ := fact
    refine (serving_limitCheck inHand).mono fun ℓ₂ result same₂ => ?_
    have both : ℓ.SameCall ℓ₂ := same.trans same₂
    match result with
    | .ok (.authorized info) =>
      exact serving_onAuthorizedTry.mono fun ℓ₃ _ same₃ => both.trans same₃
    | .ok (.rateLimited info) =>
      exact serving_answer (Or.inr ⟨_, _, rfl⟩) fun _ => ⟨both.granted, both.dispatched, both.refused⟩
    | .error .durationOverflow => exact both
    | .error (.cacheUpdateFail _) =>
      refine (serving_getApplicationFromCache _).mono ?_
      intro ℓ₃ fetched fact
      obtain ⟨le, read⟩ := fact
      cases fetched with
      | error e => exact both.trans le.sameCall
      | ok pair => exact ⟨both.trans le.sameCall, read _ _ rfl⟩

theorem serving_handleCacheHit {f : CacheFilter} {app : Application} {cas : Nat}
    (inHand : InHand first ℓ app cas) :
    Follows (serving first safe) (fun ℓ' _ => ℓ.SameCall ℓ') (f.handleCacheHit app cas) ℓ := by
  rw [handleCacheHit_eq]
  refine serving_quiet rfl fun _ => serving_quiet rfl fun queue => ?_
  cases queue with
  | none => exact .refl ℓ
  | some queueId =>
    refine serving_quiet rfl fun now => ?_
    cases now with
    | none => exact .refl ℓ
    | some now =>
      cases addHierarchyToMetrics app.metricHierarchy f.state.reqData.metrics with
      | none => trivial
      | some _ => exact serving_cacheHitTries inHand

/-! The callout -/

/-- What the outcome of the race for a lock means. -/
def LockOutcome (context : CacheFilter) (ℓ : Progress) :
    Except UniqueCalloutError SetCalloutLockStatus → Prop
  | .ok .lockAcquired => ℓ.Granted (lockKey context)
  | _ => ℓ.Fresh

theorem serving_acquire {context : CacheFilter} {cas : Nat} {α : Type}
    {k : Except Status Unit → HostProg α} {Q : Progress → α → Prop} (fresh : ℓ.Fresh)
    (acquired : ∀ ℓ', ℓ'.Granted (lockKey context) → Follows (serving first safe) Q (k (.ok ())) ℓ')
    (refused : ∀ e, Follows (serving first safe) Q (k (.error e)) ℓ) :
    Follows (serving first safe) Q
      (.call (.setSharedData (lockKey context) (some (.calloutLock ⟨context.rootId, []⟩)) (some cas)) k)
      ℓ := by
  refine ⟨.acquire _ _ _ (isLockKey_calloutLockKey _) rfl fresh, fun r ℓ' known => ?_⟩
  cases Option.some.inj known
  cases r with
  | ok => exact acquired _ ⟨rfl, fresh.dispatched, fresh.answered, fresh.wrote⟩
  | error e => exact refused e

theorem serving_setCalloutLockLoop {context : CacheFilter} {waiter : CalloutWaiter} {rounds : Nat}
    {seen : Option Nat} (fresh : ℓ.Fresh) :
    Follows (serving first safe) (LockOutcome context)
      (setCalloutLockLoop context (lockKey context) waiter rounds seen) ℓ := by
  induction rounds generalizing seen ℓ with
  | zero => trivial
  | succ rounds ih =>
    refine ⟨.side _ (.read _), fun r ℓ' known => ?_⟩
    have read : ℓ'.Fresh := fresh.le (serving_keeps.next _ _ _ _ (.read _) known)
    cases Option.some.inj known
    match r with
    | .error _ => exact read
    | .ok (none, none) | .ok (some (.application _), none) | .ok (some (.appId _), none)
    | .ok (some (.memoryCounter _), none) | .ok (some (.calloutLock _), none) =>
      refine serving_acquire read (fun _ granted => granted) fun e => ?_
      cases e with
      | casMismatch => exact ih read
      | _ => exact read
    | .ok (none, some cas) =>
      cases seen with
      | some ownedBy => exact read
      | none =>
        refine serving_acquire read (fun _ granted => granted) fun e => ?_
        cases e with
        | casMismatch => exact ih read
        | _ => exact read
    | .ok (some bytes, some cas) =>
      have held : lockKey context ∈ (ℓ.next ⟨.getSharedData (lockKey context), .ok (some bytes, some cas)⟩).held := by
        cases bytes with
        | application | appId | calloutLock | memoryCounter => exact List.mem_cons_self
      dsimp only [Prog.bind]
      cases bytes.lock with
      | none => exact read
      | some v =>
        have added : v.waiters ++ [waiter] ≠ [] :=
          List.append_ne_nil_of_right_ne_nil _ (List.cons_ne_nil _ _)
        refine ⟨.wait _ _ _ (isLockKey_calloutLockKey _) added held, fun r ℓ' known => ?_⟩
        cases Option.some.inj known
        have inserted : ∀ ℓ' : Progress, ℓ'.Fresh → Follows (serving first safe) (LockOutcome context)
            (do
              ask (.insertWaitingContext context)
              pure (.ok .addedToWaitlist)) ℓ' :=
          fun ℓ' fresh' => serving_quiet rfl fun _ => fresh'
        match r with
        | .ok () =>
          exact inserted _ ⟨(if_neg added).trans read.granted, read.dispatched, read.answered, read.wrote⟩
        | .error .casMismatch => exact ih read
        | .error .notFound | .error .badArgument | .error .empty | .error .internalFailure =>
          exact inserted _ read

theorem serving_setCalloutLock {context : CacheFilter} {rounds : Nat} (fresh : ℓ.Fresh) :
    Follows (serving first safe) (LockOutcome context) (setCalloutLock rounds context) ℓ := by
  refine serving_quiet rfl fun queue => ?_
  cases queue with
  | none => exact fresh
  | some queueId => exact serving_setCalloutLockLoop fresh

/-- The API call for the request can be built, whatever its application is. -/
def ThirdParty.Builds (lib : ThirdParty) (data : ThreescaleData) : Prop :=
  ∀ appId, (lib.buildApiCall (CacheFilter.authorizeCall { data with appId := appId })).isSome

/-- What a request callback leaves: a call that is out was made under the lock
of the request's cache key, and with this lock no call is out only if it could
not be built or was refused. -/
structure Handed (builds : Prop) (ℓ : Progress) (f : CacheFilter) : Prop where
  called : ℓ.dispatched = true → ℓ.Called (lockKey f)
  granted : ∀ key, ℓ.granted = some key → key = lockKey f
  made : builds → ℓ.granted.isSome → ℓ.dispatched = true ∨ ℓ.refused = true

theorem Handed.of_fresh {builds : Prop} {ℓ ℓ' : Progress} {f : CacheFilter} (fresh : ℓ.Fresh)
    (same : ℓ.SameCall ℓ') : Handed builds ℓ' f where
  called := by
    intro dispatched
    rw [same.dispatched, fresh.dispatched] at dispatched
    cases dispatched
  granted := by
    intro key granted
    rw [same.granted, fresh.granted] at granted
    cases granted
  made := by
    intro _ granted
    rw [same.granted, fresh.granted] at granted
    cases granted

theorem Handed.imp {builds builds' : Prop} {f : CacheFilter} (handed : Handed builds ℓ f)
    (stronger : builds' → builds) : Handed builds' ℓ f :=
  ⟨handed.called, handed.granted, fun built => handed.made (stronger built)⟩

/-- The callout fails with the lock held. -/
theorem serving_failGranted {builds : Prop} {f : CacheFilter} (granted : ℓ.granted = some (lockKey f))
    (dispatched : ℓ.dispatched = false) (cause : builds → ℓ.refused = true) :
    Follows (serving first safe) (fun ℓ' r => Handed builds ℓ' r.1) f.inRequestFailure ℓ := by
  refine (serving_inRequestFailure f).mono fun ℓ' r ⟨same, key⟩ => ⟨fun out => ?_, fun k at_ => ?_, ?_⟩
  · rw [same.dispatched, dispatched] at out
    cases out
  · rw [same.granted, granted] at at_
    rw [key, Option.some.inj at_]
  · exact fun built _ => Or.inr (same.refused.trans (cause built))

theorem serving_doAuthCall {lib : ThirdParty} {f : CacheFilter} (granted : ℓ.Granted (lockKey f)) :
    Follows (serving first safe) (fun ℓ' r => Handed (lib.Builds f.state.reqData) ℓ' r.1)
      (f.doAuthCall lib) ℓ := by
  unfold CacheFilter.doAuthCall
  cases built : lib.buildApiCall (CacheFilter.authorizeCall f.state.reqData) with
  | none =>
    refine serving_failGranted granted.granted granted.dispatched fun builds => ?_
    have some_ := builds f.state.reqData.appId
    rw [built] at some_
    cases some_
  | some request =>
    refine ⟨.dispatch _ (by rw [granted.granted]; rfl) granted.answered, fun r ℓ' known => ?_⟩
    cases Option.some.inj known
    cases r with
    | error e => exact serving_failGranted granted.granted granted.dispatched fun _ => rfl
    | ok => exact ⟨fun _ => ⟨granted.granted, rfl, granted.answered, granted.wrote⟩,
        fun k at_ => (Option.some.inj (granted.granted.symm.trans at_)).symm, fun _ _ => Or.inl rfl⟩

theorem serving_cacheHitOrFail {builds : Prop} {f : CacheFilter} {app : Application} {cas : Nat}
    (fresh : ℓ.Fresh) (inHand : InHand first ℓ app cas) :
    Follows (serving first safe) (fun ℓ' r => Handed builds ℓ' r.1) (f.cacheHitOrFail app cas) ℓ := by
  refine follows_bind.mpr ((serving_handleCacheHit inHand).mono ?_)
  intro ℓ₁ outcome same
  obtain ⟨f₁, result⟩ := outcome
  cases result with
  | ok => exact .of_fresh fresh same
  | error e =>
    exact (serving_inRequestFailure f₁).mono fun ℓ₂ _ ⟨same₂, _⟩ => .of_fresh fresh (same.trans same₂)

theorem serving_failFresh {builds : Prop} {f : CacheFilter} (fresh : ℓ.Fresh) :
    Follows (serving first safe) (fun ℓ' r => Handed builds ℓ' r.1) f.inRequestFailure ℓ :=
  (serving_inRequestFailure f).mono fun _ _ ⟨same, _⟩ => .of_fresh fresh same

theorem serving_lookUp {ε α : Type} {lib : ThirdParty} {rounds : Nat} {f : CacheFilter}
    {read : HostProg (Except ε α)} {found : α → HostProg (CacheFilter × Action)}
    (reads : ∀ ℓ : Progress, ℓ.Fresh → Follows (serving first safe) (fun ℓ' r => ℓ'.Fresh ∧ ∀ a, r = .ok a →
      Follows (serving first safe) (fun ℓ' r => Handed (lib.Builds f.state.reqData) ℓ' r.1) (found a) ℓ') read ℓ)
    (fresh : ℓ.Fresh) :
    Follows (serving first safe) (fun ℓ' r => Handed (lib.Builds f.state.reqData) ℓ' r.1)
      (f.lookUp lib rounds read found) ℓ := by
  refine follows_lookUp Progress.Fresh reads (fun ℓ fresh => ?_) (fun ℓ fresh => ?_)
    (fun ℓ fresh => serving_failFresh fresh) fresh
  · exact serving_quiet rfl fun _ => fresh
  · refine (serving_setCalloutLock fresh).mono fun ℓ' status outcome => ?_
    match status with
    | .ok .lockAcquired => exact serving_doAuthCall outcome
    | .ok .addedToWaitlist => exact .of_fresh outcome (.refl ℓ')
    | .ok .responseCameFirst => exact outcome
    | .error _ => exact serving_failFresh outcome

theorem serving_lookupApplication {lib : ThirdParty} {rounds : Nat} {f : CacheFilter}
    (fresh : ℓ.Fresh) :
    Follows (serving first safe) (fun ℓ' r => Handed (lib.Builds f.state.reqData) ℓ' r.1)
      (f.lookupApplication lib rounds) ℓ := by
  rw [lookupApplication_eq]
  refine serving_lookUp (fun ℓ fresh => ?_) fresh
  refine (serving_getApplicationFromCache _).mono fun ℓ' found fact => ?_
  obtain ⟨le, read⟩ := fact
  have fresh' : ℓ'.Fresh := fresh.le le
  exact ⟨fresh', fun pair is => serving_cacheHitOrFail fresh' (read _ _ is)⟩

theorem serving_onUserKey {lib : ThirdParty} {rounds : Nat} {f : CacheFilter} {userKey : UserKey}
    (fresh : ℓ.Fresh) :
    Follows (serving first safe) (fun ℓ' r => Handed (lib.Builds f.state.reqData) ℓ' r.1)
      (f.onUserKey lib rounds userKey) ℓ := by
  rw [onUserKey_eq]
  refine serving_lookUp (fun ℓ fresh => ?_) fresh
  refine (serving_keeps.follows (only_getAppIdFromCache userKey) ℓ).mono fun ℓ' found le => ?_
  have fresh' : ℓ'.Fresh := fresh.le le
  exact ⟨fresh', fun appId _ => serving_lookupApplication fresh'⟩

/-- The callback of the request headers. -/
theorem serving_onHttpRequestHeaders {lib : ThirdParty} {rounds : Nat} {f : CacheFilter}
    {headers : Str → Option Str} (fresh : ℓ.Fresh) :
    Follows (serving first safe) (fun ℓ' r => Handed
        (∀ data, CacheFilter.getRequestData lib headers = .ok data → lib.Builds data) ℓ' r.1)
      (f.onHttpRequestHeaders lib rounds headers) ℓ := by
  unfold CacheFilter.onHttpRequestHeaders
  cases CacheFilter.getRequestData lib headers with
  | error e =>
    exact serving_quiet rfl fun _ => serving_answer (Or.inr ⟨_, _, rfl⟩) fun _ =>
      .of_fresh fresh ⟨rfl, rfl, rfl⟩
  | ok data =>
    dsimp only
    cases data.appId with
    | userKey userKey =>
      exact (serving_onUserKey fresh).mono fun _ _ handed => handed.imp fun builds => builds data rfl
    | appId id key =>
      exact (serving_lookupApplication fresh).mono fun _ _ handed =>
        handed.imp fun builds => builds data rfl

/-! The response -/

/-- The response is handled with what `a` says. -/
structure CallResponse.Carries (response : CallResponse) (a : AuthorizationStatus) : Prop where
  answered : response.status ≠ some timeoutStatus
  body : response.body = some (.parsed (.status a))
  handled : (a.isAuthorized || a.usageReports.isSome) = true

/-- It names the application, so that a user_key is mapped to it. -/
def AuthorizationStatus.Named (a : AuthorizationStatus) : Prop := ∃ ids, CacheFilter.authResponseIds a = .ok ids

/-- What a response has to be for the call of `f`: the application that it
forms is `first`, and the user_key that it maps is `safe`. -/
structure Suits (first : Application → Prop) (safe : Str → Prop) (f : CacheFilter)
    (response : CallResponse) : Prop where
  forms : ∀ a app, response.Carries a → rebuilt a = some app → first app
  maps : ∀ a userKey, response.Carries a → a.Named → f.state.cacheKey.appId = .userKey userKey → safe userKey

theorem serving_recordAppId {f : CacheFilter} {appId : AppId} {key : Str} (called : ℓ.Called key)
    (maps : ∀ userKey, f.state.cacheKey.appId = .userKey userKey → safe userKey) :
    Follows (serving first safe) (fun ℓ' _ => ℓ'.Called key) (f.recordAppId appId) ℓ := by
  unfold CacheFilter.recordAppId
  split
  · rename_i userKey kind
    refine ⟨.mapUserKey _ _ _ (maps userKey kind), fun r ℓ' known => ?_⟩
    cases Option.some.inj known
    cases r with
    | ok => exact ⟨called.granted, called.dispatched, called.answered, called.wrote⟩
    | error e => exact called
  · exact called

theorem serving_handleAuthResponse {f : CacheFilter} {response : AuthorizationStatus} {key : Str}
    (called : ℓ.Called key) (forms : ∀ app, rebuilt response = some app → first app)
    (maps : ∀ userKey, response.Named → f.state.cacheKey.appId = .userKey userKey → safe userKey) :
    Follows (serving first safe) (fun ℓ' _ => ℓ'.granted = some key) (f.handleAuthResponse response) ℓ := by
  unfold CacheFilter.handleAuthResponse
  unfold rebuilt at forms
  cases ids : CacheFilter.authResponseIds response with
  | error e => exact called.granted
  | ok triple =>
    obtain ⟨appKeys, appId, serviceId⟩ := triple
    simp only [ids] at forms
    refine follows_bind.mpr ((serving_recordAppId called fun userKey => maps userKey ⟨_, ids⟩).mono ?_)
    intro ℓ₁ outcome called₁
    obtain ⟨f₁, result⟩ := outcome
    cases result with
    | error e => exact called₁.granted
    | ok =>
      dsimp only
      cases formed : CacheFilter.authResponseApplication response appKeys appId serviceId with
      | none => exact called₁.granted
      | some app =>
        have inHand : InHand first ℓ₁ app 0 :=
          Or.inr ⟨rfl, forms app formed, called₁.dispatched, called₁.answered, called₁.wrote⟩
        refine follows_bind.mpr ((serving_handleCacheHit inHand).mono ?_)
        intro ℓ₂ outcome same
        obtain ⟨f₂, result⟩ := outcome
        cases result with
        | ok => exact same.granted.trans called₁.granted
        | error e => exact same.granted.trans called₁.granted

/-- The response for which the callback returns without freeing the lock. -/
def ErrorReply (response : CallResponse) : Prop :=
  response.status ≠ some timeoutStatus ∧ ∃ code, response.body = some (.parsed (.error code))

theorem serving_failAnd {f : CacheFilter} {action : Option WaiterAction} {key : Str}
    (granted : ℓ.granted = some key) :
    Follows (serving first safe) (fun ℓ' r => ℓ'.granted = some key ∧ r.2 = action)
      (f.requestProcessFailure >>= fun f => pure (f, action)) ℓ :=
  follows_bind.mpr ((serving_requestProcessFailure f).mono fun _ _ same =>
    ⟨same.granted.trans granted, rfl⟩)

theorem serving_onCallResult {f : CacheFilter} {status : Str} {body : Option ResponseBody} {key : Str}
    (called : ℓ.Called key) (suits : Suits first safe f ⟨some status, body⟩) :
    Follows (serving first safe)
      (fun ℓ' r => ℓ'.granted = some key ∧ (r.2 = none → ErrorReply ⟨some status, body⟩))
      (f.onCallResult status body) ℓ := by
  have fails : ∀ {ℓ' : Progress} {f' : CacheFilter}, ℓ'.granted = some key →
      Follows (serving first safe)
        (fun ℓ' r => ℓ'.granted = some key ∧ (r.2 = none → ErrorReply ⟨some status, body⟩))
        (f'.requestProcessFailure >>= fun f => pure (f, some (WaiterAction.handleFailure 0))) ℓ' :=
    fun granted => (serving_failAnd granted).mono fun _ r ⟨same, is⟩ =>
      ⟨same, fun none_ => by rw [is] at none_; cases none_⟩
  unfold CacheFilter.onCallResult
  by_cases answered : status = timeoutStatus
  · rw [if_neg (not_not_intro answered)]
    exact serving_quiet_bind rfl fun _ => fails called.granted
  · rw [if_pos answered]
    match body, suits with
    | none, _ | some .unparsable, _ => exact fails called.granted
    | some .notUtf8, _ => trivial
    | some (.parsed (.error code)), _ =>
      refine (serving_failAnd called.granted).mono fun ℓ' r ⟨same, _⟩ => ⟨same, fun _ => ?_⟩
      exact ⟨fun same => answered (Option.some.inj same), code, rfl⟩
    | some (.parsed (.status response)), suits =>
      unfold CacheFilter.onAuthorization
      dsimp only
      split
      · rename_i handled
        have carries : CallResponse.Carries ⟨some status, some (.parsed (.status response))⟩ response :=
          ⟨fun same => answered (Option.some.inj same), rfl, handled⟩
        refine follows_bind.mpr ((serving_handleAuthResponse called
          (fun app formed => suits.forms response app carries formed)
          fun userKey named => suits.maps response userKey carries named).mono ?_)
        intro ℓ₁ outcome granted
        obtain ⟨f₁, result⟩ := outcome
        cases result with
        | ok => exact ⟨granted, by rintro ⟨⟩⟩
        | error e => exact fails granted
      · refine serving_quiet_bind rfl fun _ => ?_
        cases response.reason with
        | none => trivial
        | some reason =>
          exact serving_answer (Or.inr ⟨_, _, rfl⟩) fun _ => ⟨called.granted, by rintro ⟨⟩⟩

theorem serving_notifyWaiters {action : WaiterAction} {waiters : List CalloutWaiter} :
    Follows (serving first safe) (fun ℓ' _ => ℓ' = ℓ) (notifyWaiters action waiters) ℓ := by
  induction waiters with
  | nil => exact rfl
  | cons waiter rest ih => exact serving_quiet_bind rfl fun _ => ih

/-- Freeing a lock leaves its key without a value. -/
theorem serving_freeCalloutLock {cacheKey : CacheKey} {action : WaiterAction}
    (granted : ℓ.granted = some (calloutLockKey cacheKey)) :
    Follows (serving first safe)
      (fun ℓ' _ => ℓ'.vacant = some (calloutLockKey cacheKey) ∨ ℓ'.strange = true)
      (freeCalloutLockAndNotifyWaiters cacheKey action) ℓ := by
  have isKey := isLockKey_calloutLockKey cacheKey
  refine ⟨.side _ (.read _), fun r ℓ' known => ?_⟩
  cases Option.some.inj known
  match r with
  | .error _ => exact Or.inr rfl
  | .ok (none, _) => exact Or.inl rfl
  | .ok (some bytes, cas) =>
    have granted : (ℓ.next ⟨.getSharedData (calloutLockKey cacheKey), .ok (some bytes, cas)⟩).granted =
        some (calloutLockKey cacheKey) := by
      cases bytes with
      | application => cases cas <;> exact granted
      | appId | calloutLock | memoryCounter => exact granted
    dsimp only [Prog.bind]
    cases lock : bytes.lock with
    | none =>
      refine Or.inr ?_
      cases bytes with
      | application => cases cas <;> simp [Progress.next, isKey]
      | appId | memoryCounter => simp [Progress.next, isKey]
      | calloutLock => cases lock
    | some value =>
      refine follows_bind.mpr (serving_notifyWaiters.mono ?_)
      intro ℓ' _ same
      subst same
      refine ⟨.erase _ granted, fun r ℓ'' known => ?_⟩
      cases Option.some.inj known
      cases r with
      | ok => exact Or.inl rfl
      | error e => trivial

/-- The callback of the response. -/
theorem serving_onHttpCallResponse {f : CacheFilter} {response : CallResponse}
    (called : ℓ.Called (lockKey f)) (suits : Suits first safe f response) :
    Follows (serving first safe)
      (fun ℓ' _ => ErrorReply response ∨ ℓ'.vacant = some (lockKey f) ∨ ℓ'.strange = true)
      (f.onHttpCallResponse response) ℓ := by
  obtain ⟨status, body⟩ := response
  cases status with
  | none => trivial
  | some status =>
    refine follows_bind.mpr ((serving_onCallResult called suits).mono ?_)
    intro ℓ₁ outcome fact
    obtain ⟨f₁, action⟩ := outcome
    obtain ⟨granted, early⟩ := fact
    cases action with
    | none => exact Or.inl (early rfl)
    | some action =>
      exact follows_bind.mpr ((serving_freeCalloutLock granted).mono fun _ _ freed => Or.inr freed)

/-! The other callbacks -/

theorem serving_waiterCacheHit {context : CacheFilter} {app : Application} {cas : Nat}
    (inHand : InHand first ℓ app cas) :
    Follows (serving first safe) (fun ℓ' _ => ℓ.SameCall ℓ')
      (CacheFilterRoot.waiterCacheHit context app cas) ℓ := by
  refine follows_bind.mpr ((serving_handleCacheHit inHand).mono ?_)
  intro ℓ₁ outcome same
  obtain ⟨f, result⟩ := outcome
  cases result with
  | ok => exact serving_answer (Or.inl rfl) fun _ => ⟨same.granted, same.dispatched, same.refused⟩
  | error e =>
    exact follows_bind.mpr ((serving_requestProcessFailure f).mono fun ℓ₂ _ same₂ => same.trans same₂)

theorem serving_lookupForWaiter {context : CacheFilter} :
    Follows (serving first safe) (fun ℓ' _ => ℓ.SameCall ℓ') (CacheFilterRoot.lookupForWaiter context)
      ℓ := by
  refine follows_bind.mpr ((serving_getApplicationFromCache _).mono ?_)
  intro ℓ₁ found fact
  obtain ⟨le, read⟩ := fact
  cases found with
  | error e => exact le.sameCall
  | ok pair =>
    exact (serving_waiterCacheHit (read _ _ rfl)).mono fun ℓ₂ _ same => le.sameCall.trans same

theorem serving_wakeWaiter {context : CacheFilter} {action : WaiterAction} :
    Follows (serving first safe) (fun ℓ' _ => ℓ.SameCall ℓ') (CacheFilterRoot.wakeWaiter context action)
      ℓ := by
  cases action with
  | handleFailure id =>
    exact follows_bind.mpr ((serving_requestProcessFailure context).mono fun _ _ same => same)
  | handleCacheHit id =>
    unfold CacheFilterRoot.wakeWaiter CacheFilterRoot.resumeCacheHit
    dsimp only
    cases context.state.cacheKey.appId with
    | appId id key => exact serving_lookupForWaiter
    | userKey userKey =>
      refine follows_bind.mpr ((serving_keeps.follows (only_getAppIdFromCache userKey) ℓ).mono ?_)
      intro ℓ₁ found le
      cases found with
      | error e => exact le.sameCall
      | ok appId =>
        exact serving_lookupForWaiter.mono fun ℓ₂ _ same => le.sameCall.trans same

/-- The callback of a queue. -/
theorem serving_onQueueReady {root : CacheFilterRoot} {queueId : Nat} :
    Follows (serving first safe) (fun ℓ' _ => ℓ.SameCall ℓ') (root.onQueueReady queueId) ℓ := by
  refine serving_quiet_bind rfl fun item => ?_
  match item with
  | .error _ | .ok none | .ok (some (.message _)) => exact .refl ℓ
  | .ok (some (.waiterAction action)) =>
    refine serving_quiet_bind rfl fun waiting => ?_
    cases waiting with
    | none => exact .refl ℓ
    | some context =>
      refine serving_quiet_bind rfl fun effective => ?_
      cases effective with
      | error e => exact serving_quiet rfl fun _ => .refl ℓ
      | ok =>
        refine follows_bind.mpr (serving_wakeWaiter.mono fun ℓ' _ same => ?_)
        exact serving_quiet rfl fun _ => same

/-! What the progress and the calls say about applications -/

theorem Progress.mem_reads_next {e : HostEvent} {x : Str × Application × Nat}
    (member : x ∈ (ℓ.next e).reads) :
    x ∈ ℓ.reads ∨ e = ⟨.getSharedData x.1, .ok (some (.application x.2.1), some x.2.2)⟩ := by
  obtain ⟨c, reply⟩ := e
  cases c with
  | getSharedData key =>
    match reply with
    | .ok (some (.application app), some cas) =>
      rcases List.mem_cons.mp member with rfl | old
      · exact Or.inr rfl
      · exact Or.inl old
    | .error _ | .ok (none, _) | .ok (some (.application _), none) | .ok (some (.appId _), _)
    | .ok (some (.memoryCounter _), _) | .ok (some (.calloutLock _), _) => exact Or.inl member
  | setSharedData key value cas =>
    match value, reply with
    | none, .ok () | some (.application _), .ok () | some (.appId _), .ok ()
    | some (.memoryCounter _), .ok () | some (.calloutLock _), .ok () => exact Or.inl member
    | none, .error _ | some (.application _), .error _ | some (.appId _), .error _
    | some (.memoryCounter _), .error _ | some (.calloutLock _), .error _ => exact Or.inl member
  | dispatchHttpCall call => cases reply <;> exact Or.inl member
  | _ => exact Or.inl member

theorem ServingCall.application_inv {key : Str} {app' : Application} {cas : Option Nat}
    (call : ServingCall first safe ℓ (.setSharedData key (some (.application app')) cas)) :
    ∃ app c, cas = some c ∧ key = app.cacheKey.asString ∧ InHand first ℓ app c ∧
      (app' = app ∨ Passes app app') := by
  cases call with
  | side _ side => cases side
  | application app _ c inHand left => exact ⟨app, c, rfl, rfl, inHand, left⟩
  | other _ notSet => exact absurd rfl (notSet _ _ _)

theorem serving_track (t : List HostEvent) :
    (serving first safe).track ℓ t = some (t.foldl Progress.next ℓ) := by
  induction t generalizing ℓ with
  | nil => rfl
  | cons e t ih => exact ih

/-! What the progress tells about the calls -/

/-- The authorize call is out. -/
def Dispatches (e : HostEvent) : Prop := ∃ call id, e = ⟨.dispatchHttpCall call, .ok id⟩

/-- The request is resumed, or answered by the filter. -/
def Answers (e : HostEvent) : Prop :=
  e = ⟨.resumeHttpRequest, ()⟩ ∨ ∃ status body, e = ⟨.sendHttpResponse status body, ()⟩

theorem Progress.dispatched_next {e : HostEvent} :
    (ℓ.next e).dispatched = true ↔ ℓ.dispatched = true ∨ Dispatches e := by
  unfold Progress.next
  split <;> grind [Dispatches]

theorem Progress.answered_next {e : HostEvent} :
    (ℓ.next e).answered = true ↔ ℓ.answered = true ∨ Answers e := by
  unfold Progress.next
  split <;> grind [Answers]

theorem Progress.granted_next {e : HostEvent} {key : Str} (granted : (ℓ.next e).granted = some key) :
    ℓ.granted = some key ∨ Acquires key e := by
  unfold Progress.next at granted
  split at granted <;> grind [Acquires]

theorem Progress.granted_kept {e : HostEvent} (granted : ℓ.granted.isSome) :
    (ℓ.next e).granted.isSome := by
  unfold Progress.next
  split <;> grind

theorem Progress.wrote_next {e : HostEvent} (wrote : ℓ.wrote = true) : (ℓ.next e).wrote = true := by
  unfold Progress.next
  split <;> simp [wrote]

theorem Progress.wrote_first {key : Str} {app : Application} :
    (ℓ.next ⟨.setSharedData key (some (.application app)) (some 0), .ok ()⟩).wrote = true :=
  Bool.or_true _

theorem ServingCall.dispatch_inv {call : HttpCall}
    (may : ServingCall first safe ℓ (.dispatchHttpCall call)) : ℓ.granted.isSome := by
  cases may with
  | side _ side => cases side
  | dispatch _ granted _ => exact granted
  | other _ _ notDispatch => exact absurd rfl (notDispatch _)

/-- A read that is answered with a value and a CAS has met them in shared data. -/
theorem exec_read {c : HostCall} {h : Host} {key : Str} {value : SharedValue} {cas : Nat}
    (read : (⟨c, (Host.exec c h).1⟩ : HostEvent) = ⟨.getSharedData key, .ok (some value, some cas)⟩) :
    h.shared.entry key = some (some value, cas) := by
  have same : c = .getSharedData key := congrArg Sigma.fst read
  subst same
  have reply := Except.ok.inj (eq_of_heq (Sigma.mk.inj read).2)
  cases here : h.shared.entry key with
  | none =>
    rw [SharedData.get_absent here] at reply
    cases reply
  | some entry =>
    obtain ⟨stored, storedCas⟩ := entry
    rw [SharedData.get_present here] at reply
    cases reply
    rfl

end ThreescaleCache
