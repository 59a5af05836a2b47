import ThreescaleCache.CacheHitRules

namespace ThreescaleCache
open Interaction

/-- What the calls of a cache hit come to: the queue of the singleton as it
was resolved, the answer to the request, the messages enqueued with their
queues, and the limit checks that passed, by the fate of their write. -/
structure Tally where
  queue : Option Nat := none
  answered429 : Bool := false
  released : Bool := false
  enqueued : List (Nat × Message) := []
  authorized : Nat := 0
  refused : Nat := 0

namespace Tally

def note (s : Tally) : HostEvent → Tally
  | ⟨.resolveSharedQueue name, reply⟩ => if name = queueName then { s with queue := reply } else s
  | ⟨.sendHttpResponse status _, _⟩ => { s with answered429 := s.answered429 || status == 429 }
  | ⟨.resumeHttpRequest, _⟩ => { s with released := true }
  | ⟨.enqueueSharedQueue queueId (.message m), _⟩ => { s with enqueued := s.enqueued ++ [(queueId, m)] }
  | ⟨.limitChecked (.ok (.authorized _)), _⟩ => { s with authorized := s.authorized + 1 }
  | ⟨.limitChecked (.error (.cacheUpdateFail _)), _⟩ => { s with refused := s.refused + 1 }
  | _ => s

def ofTrace (t : List HostEvent) : Tally := t.foldl note {}

end Tally

/-- The queue resolves, and enqueueing succeeds. -/
def queueWorks : HostEvent → Bool
  | ⟨.resolveSharedQueue _, reply⟩ => reply.isSome
  | ⟨.enqueueSharedQueue .., .error _⟩ => false
  | _ => true

/-- A party whose queue works keeps the tally of its calls. -/
def tallying : HostProtocol Tally where
  may := fun _ _ => True
  next := fun s c reply => if queueWorks ⟨c, reply⟩ then some (s.note ⟨c, reply⟩) else none

theorem tallying_track {t : List HostEvent} (works : ∀ e ∈ t, queueWorks e) (s : Tally) :
    tallying.track s t = some (t.foldl Tally.note s) := by
  induction t generalizing s with
  | nil => rfl
  | cons e t ih =>
    have first : queueWorks e := works e List.mem_cons_self
    have rest := ih (fun e' member => works e' (List.mem_cons_of_mem _ member)) (s.note e)
    simp only [Protocol.track, tallying, first, if_true, Option.bind_some, List.foldl_cons]
    exact rest

theorem tallying_keeps : tallying.Keeps (fun s s' => s' = s) SideCall where
  refl := fun _ => rfl
  trans := fun first second => second.trans first
  may := fun _ _ _ => trivial
  next := by
    intro s c reply s' side known
    cases side <;> exact (Option.some.inj known).symm

/-- The request got 429 and no message, or it was released on a limit check
that passed and one message with its data tells the singleton whether the
debit is still to be made. -/
def Tally.Accounts (s : Tally) (f : CacheFilter) : Prop :=
  (s.answered429 = true ∧ s.released = false ∧ s.enqueued = []) ∨
    (s.released = true ∧ 0 < s.authorized + s.refused ∧
      ∃ queueId m, s.queue = some queueId ∧ s.enqueued = [(queueId, m)] ∧ m.data = f.state.reqData ∧
        (m.updateCacheFromSingleton = true ↔ s.authorized = 0))

/-- After `refused` tries that could not write. -/
def Tally.trying (queueId refused : Nat) : Tally := { queue := some queueId, refused := refused }

/-- What the tally is worth at the end of a cache hit. -/
def Settled (f : CacheFilter) (s : Tally) (result : Except CacheHitError Unit) : Prop :=
  result = .ok () → (s.Accounts f ↔ s.refused < f.config.maxTries)

theorem settled_onAuthorizedTry {f : CacheFilter} {queueId refused cas : Nat} {now : Duration}
    {info : RateLimitInfo} (fresh : f.state.updateCacheFromSingleton = false)
    (more : refused < f.config.maxTries) :
    Follows tallying (fun s r => Settled f s r.2) (f.onAuthorizedTry queueId now cas info)
      { Tally.trying queueId refused with authorized := 1 } := by
  let message : Message := ⟨f.state.updateCacheFromSingleton, f.state.reqData, now⟩
  have accounts : Settled f { Tally.trying queueId refused with
      authorized := 1, enqueued := [(queueId, message)], released := true } (.ok ()) := by
    refine fun _ => iff_of_true (Or.inr ⟨rfl, by simp only [Tally.trying]; omega, ?_⟩) more
    exact ⟨queueId, message, rfl, rfl, rfl, by simp [message, fresh]⟩
  have report : Follows tallying (fun s r => Settled f s r.2)
      (do
        let _ ← (f.withRateLimitInfo info).reportToSingleton queueId now
        resumeHttpRequest
        pure (f.withRateLimitInfo info, .ok ()))
      { Tally.trying queueId refused with authorized := 1 } := by
    refine ⟨trivial, fun reply s known => ?_⟩
    cases reply with
    | error e => cases known
    | ok =>
      cases Option.some.inj known
      refine ⟨trivial, fun _ s known => ?_⟩
      cases Option.some.inj known
      exact accounts
  unfold CacheFilter.onAuthorizedTry onlyIf
  by_cases first : cas = 0
  · simp only [first, if_true]
    refine ⟨trivial, fun _ s known => ?_⟩
    cases Option.some.inj known
    exact report
  · simp only [first, if_false]
    exact report

theorem settled_onRateLimitedTry {f : CacheFilter} {queueId refused : Nat} {info : RateLimitInfo}
    (more : refused < f.config.maxTries) :
    Follows tallying (fun s r => Settled f s r.2) (f.onRateLimitedTry info)
      (Tally.trying queueId refused) := by
  refine ⟨trivial, fun _ s known => ?_⟩
  cases Option.some.inj known
  exact fun _ => iff_of_true (Or.inl ⟨rfl, rfl, rfl⟩) more

/-- The request is released, and no message tells the singleton about it. -/
theorem settled_afterLastTry {f : CacheFilter} {queueId : Nat} :
    Follows tallying (fun s r => Settled f s r.2) f.afterLastTry
      (Tally.trying queueId f.config.maxTries) := by
  refine ⟨trivial, fun _ s known => ?_⟩
  cases Option.some.inj known
  refine fun _ => iff_of_false ?_ (lt_irrefl _)
  intro fact
  obtain ⟨answered, _⟩ | ⟨_, _, _, _, _, none_, _⟩ := fact
  · cases answered
  · cases none_

theorem settled_cacheHitTries {f : CacheFilter} {queueId : Nat} {now : Duration} {app : Application}
    {cas : Nat} (fresh : f.state.updateCacheFromSingleton = false) :
    Follows tallying (fun s r => Settled f s r.2)
      (CacheFilter.cacheHitTries queueId now f.config.maxTries f app cas) (Tally.trying queueId 0) := by
  let Inv (tries : Nat) (s : Tally) (_ : Application) (_ : Nat) : Prop :=
    ∃ refused, refused + tries = f.config.maxTries ∧ s = .trying queueId refused
  refine follows_cacheHitTries f Inv ?_ ?_ ⟨0, Nat.zero_add _, rfl⟩
  · intro s app cas fact
    obtain ⟨refused, all, rfl⟩ := fact
    rw [Nat.add_zero] at all
    rw [all]
    exact settled_afterLastTry
  · intro tries s app cas fact
    obtain ⟨refused, left, rfl⟩ := fact
    have more : refused < f.config.maxTries := by omega
    have retry : ∀ s, s = Tally.trying queueId (refused + 1) →
        Follows tallying (Refetched (Inv tries) fun s e => Settled f s (.error (.appFetchFail e)))
          (getApplicationFromCache f.state.cacheKey) s := by
      intro s same
      subst same
      refine (tallying_keeps.follows (only_getApplicationFromCache _) _).mono ?_
      intro s fetched same
      subst same
      cases fetched with
      | ok => exact ⟨refused + 1, by omega, rfl⟩
      | error e => rintro ⟨⟩
    refine follows_limitCheckAndUpdate (.of_keeps tallying_keeps) ?_ ?_ ?_ ?_ ?_
    · intro s s' r same follows
      subst same
      exact follows
    · refine fun _ => ⟨trivial, fun _ s known => ?_⟩
      rintro ⟨⟩
    · refine fun _ info _ => ⟨trivial, fun _ s known => ?_⟩
      cases Option.some.inj known
      exact settled_onRateLimitedTry more
    · refine fun _ _ _ e => ⟨trivial, fun _ s known => ?_⟩
      cases Option.some.inj known
      exact retry _ rfl
    · intro app' info _ s same
      subst same
      refine ⟨trivial, fun reply s known => ⟨trivial, fun _ s' known' => ?_⟩⟩
      cases Option.some.inj known
      cases reply with
      | ok =>
        cases Option.some.inj known'
        exact settled_onAuthorizedTry fresh more
      | error e =>
        cases Option.some.inj known'
        exact retry _ rfl

theorem settled_handleCacheHit {f : CacheFilter} {app : Application} {cas : Nat}
    (fresh : f.state.updateCacheFromSingleton = false) :
    Follows tallying (fun s r => Settled f s r.2) (f.handleCacheHit app cas) {} := by
  rw [handleCacheHit_eq]
  refine ⟨trivial, fun _ s known => ⟨trivial, fun queue s' known' => ?_⟩⟩
  cases Option.some.inj known
  cases queue with
  | none => cases known'
  | some queueId =>
    cases Option.some.inj known'
    refine ⟨trivial, fun now s known => ?_⟩
    cases Option.some.inj known
    cases now with
    | none => rintro ⟨⟩
    | some now =>
      dsimp only
      cases addHierarchyToMetrics app.metricHierarchy f.state.reqData.metrics with
      | none => trivial
      | some metrics => exact settled_cacheHitTries fresh

/-- A request that leaves the cache hit flow well is accounted for exactly if
shared data did not refuse the write on every try. -/
theorem handleCacheHit_accounts_iff {f f' : CacheFilter} {app : Application} {cas : Nat}
    {t : List HostEvent} (fresh : f.state.updateCacheFromSingleton = false)
    (path : Prog.Path (f.handleCacheHit app cas) t (.done (f', .ok ())))
    (works : ∀ e ∈ t, queueWorks e) :
    (Tally.ofTrace t).Accounts f ↔ (Tally.ofTrace t).refused < f.config.maxTries :=
  (settled_handleCacheHit fresh).path path (tallying_track works {}) rfl

/-- A try that writes accounts for the request. -/
theorem handleCacheHit_accounts_written :
    (Tally.ofTrace (((hitContext 1).handleCacheHit (cachedWith ∅) 0).run Host.exec quietHost).trace).Accounts
        (hitContext 1) ↔
      (Tally.ofTrace (((hitContext 1).handleCacheHit (cachedWith ∅) 0).run Host.exec quietHost).trace).refused <
        (hitContext 1).config.maxTries :=
  handleCacheHit_accounts_iff rfl
    (Prog.run_path Host.exec ((hitContext 1).handleCacheHit (cachedWith ∅) 0) quietHost) (by decide)

/-- A cache hit whose only try meets a CAS mismatch. -/
def refusedOnce : List HostEvent :=
  let key := (cachedWith ∅).cacheKey.asString
  [⟨.incrementMetric .cacheHits 1, ()⟩, ⟨.resolveSharedQueue queueName, some 7⟩,
    ⟨.getCurrentTime, some (.fromSecs 1000000)⟩,
    ⟨.getSharedData key, .ok (some (.application (cachedWith ∅)), some 5)⟩,
    ⟨.setSharedData key (some (.application (cachedWith ∅))) (some 3), .error .casMismatch⟩,
    ⟨.limitChecked (.error (.cacheUpdateFail (.set key (.proxyStatus .casMismatch)))), ()⟩,
    ⟨.getSharedData key, .ok (some (.application (cachedWith ∅)), some 5)⟩, ⟨.resumeHttpRequest, ()⟩]

theorem not_handleCacheHit_accounts_refused : ∃ f f' app cas t,
    f.state.updateCacheFromSingleton = false ∧
    Prog.Path (CacheFilter.handleCacheHit f app cas) t (.done (f', .ok ())) ∧
    (∀ e ∈ t, queueWorks e) ∧ ¬(Tally.ofTrace t).Accounts f := by
  have path : Prog.Path ((hitContext 1).handleCacheHit (cachedWith ∅) 3) refusedOnce
      (.done ({ hitContext 1 with state.updateCacheFromSingleton := true }, .ok ())) :=
    .next (.next (.next (.next (.next (.next (.next (.next .start)))))))
  refine ⟨hitContext 1, _, cachedWith ∅, 3, refusedOnce, rfl, path, by decide, ?_⟩
  intro fact
  obtain ⟨answered, _⟩ | ⟨_, _, _, _, _, none_, _⟩ := fact
  · cases answered
  · cases none_

end ThreescaleCache
