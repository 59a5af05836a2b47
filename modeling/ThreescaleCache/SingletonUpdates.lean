import ThreescaleCache.Conservation
import ThreescaleCache.ExactCheck

namespace ThreescaleCache
open Interaction

/-! Messages that want an update of the cache from the singleton. -/

/-- The same message with no such wish. -/
def Message.plain (message : Message) : Message := { message with updateCacheFromSingleton := false }

/-- After the calls `t` that follow the message, the callback has ended as it does
with the usage alone: some of them are those of the update, and without these it
is a run for the plain message. -/
def KeepsMessage (calls : ApiCalls) (sizes : Sizes) (s : SingletonService) (queueId : Nat)
    (message : Message) (t : List HostEvent) (q : HostProg (SingletonService × List BuiltReport)) : Prop :=
  ∃ update rest updated result, t = update ++ rest ∧ q = .done result ∧
    Prog.Path (SingletonService.updateApplicationCache message.data message.reqTime) update (.done updated) ∧
    Prog.Path (s.onQueueReady calls sizes)
      (⟨.dequeueSharedQueue queueId, .ok (some (.message message.plain))⟩ :: rest) (.done result)

/-- The update goes through: the application is read, and either it is exhausted
or the check passes and its write is accepted. -/
def UpdateGoes (message : Message) (t : List HostEvent) : Prop :=
  ∃ app cas rest,
    t = ⟨.getSharedData (CacheKey.asString ⟨message.data.serviceId, message.data.appId⟩),
      .ok (some (.application app), some cas)⟩ :: rest ∧
    ((∃ app' info, limitCheck message.reqTime message.data.metrics.entries app {} = .limited app' info) ∨
      ∃ app' info, limitCheck message.reqTime message.data.metrics.entries app {} = .pass app' info ∧
        ⟨.setSharedData app.cacheKey.asString (some (.application app')) (some cas), .ok ()⟩ ∈ rest)

section
variable {data : ThreescaleData} {app : Application} {cas : Nat} {now : Duration} {t u : List HostEvent}

/-- The check returns a status exactly if its loop is exhausted, or passes and
the write is accepted. -/
theorem check_done_ok_iff {result : Except UpdateMetricsError RateLimitStatus}
    (path : Prog.Path (limitCheckAndUpdateApplication data app cas now) t (.done result)) :
    (∃ status, result = .ok status) ↔
      (∃ app' info, limitCheck now data.metrics.entries app {} = .limited app' info) ∨
        ∃ app' info, limitCheck now data.metrics.entries app {} = .pass app' info ∧
          ⟨.setSharedData app.cacheKey.asString (some (.application app')) (some cas), .ok ()⟩ ∈ t := by
  cases verdict : limitCheck now data.metrics.entries app {} with
  | trap =>
    simp only [limitCheckAndUpdateApplication, verdict] at path
    cases path
  | overflow =>
    simp only [limitCheckAndUpdateApplication, verdict] at path
    cases (noteLimitCheck_done path).1
    simp
  | limited app' info =>
    simp only [limitCheckAndUpdateApplication, verdict] at path
    cases (noteLimitCheck_done path).1
    simp
  | pass app' info =>
    rcases limitCheckAndUpdate_passed verdict path with ⟨⟨info', rfl⟩, before, after, rfl, _, _⟩ |
      ⟨⟨e, rfl⟩, unchanged⟩
    · refine iff_of_true ⟨_, rfl⟩ (Or.inr ⟨app', info, rfl, ?_⟩)
      exact List.mem_append_right _ List.mem_cons_self
    · refine iff_of_false (fun fact => ?_) (fun fact => ?_)
      · obtain ⟨status, same⟩ := fact
        cases same
      · rcases fact with ⟨_, _, limited⟩ | ⟨app₁, info₁, same, member⟩
        · cases limited
        · exact unchanged _ member trivial

/-- The update succeeds exactly if it goes through. -/
theorem update_done_ok_iff {message : Message} {result : Except SingletonService.SingletonServiceError Unit}
    (path : Prog.Path (SingletonService.updateApplicationCache message.data message.reqTime) t (.done result)) :
    result = .ok () ↔ UpdateGoes message t := by
  obtain ⟨t₁, t₂, found, rfl, read, later⟩ := Prog.path_bind_done path
  obtain ⟨reply, rfl, found_iff⟩ := getApplicationFromCache_done read
  cases found with
  | error e =>
    cases later
    refine iff_of_false (by rintro ⟨⟩) ?_
    rintro ⟨app, cas, rest, same, _⟩
    cases same
    cases (found_iff app cas).mpr rfl
  | ok found =>
    obtain ⟨app, cas⟩ := found
    cases (found_iff app cas).mp rfl
    obtain ⟨t₃, t₄, status, rfl, checked, last⟩ := Prog.path_bind_done later
    have goes := check_done_ok_iff checked
    have ended : t₄ = [] ∧ (result = .ok () ↔ ∃ s, status = .ok s) := by
      match status with
      | .ok s =>
        cases last
        exact ⟨rfl, iff_of_true rfl ⟨s, rfl⟩⟩
      | .error (.cacheUpdateFail reason) =>
        cases last
        exact ⟨rfl, iff_of_false (by rintro ⟨⟩) (by rintro ⟨_, ⟨⟩⟩)⟩
      | .error .durationOverflow =>
        cases last
        exact ⟨rfl, iff_of_false (by rintro ⟨⟩) (by rintro ⟨_, ⟨⟩⟩)⟩
    obtain ⟨rfl, ended⟩ := ended
    rw [ended, goes, List.append_nil]
    constructor
    · intro verdict
      exact ⟨app, cas, t₃, rfl, verdict⟩
    · rintro ⟨app', cas', rest, same, verdict⟩
      cases same
      exact verdict

/-- Where it goes through, it is not cut short. -/
theorem update_returns {message : Message}
    {p : HostProg (Except SingletonService.SingletonServiceError Unit)} (goes : UpdateGoes message t)
    (held : ∀ e ∈ t, HeldByVec e)
    (path : Prog.Path (SingletonService.updateApplicationCache message.data message.reqTime) t p) :
    p ≠ .trap ∧ p ≠ .spin := by
  obtain ⟨app, cas, rest, rfl, verdict⟩ := goes
  have decided : ∃ status, (limitCheck message.reqTime message.data.metrics.entries app {}).decision =
      some status := by
    rcases verdict with ⟨app', info, limited⟩ | ⟨app', info, pass, _⟩
    · rw [limited]
      exact ⟨_, rfl⟩
    · rw [pass]
      exact ⟨_, rfl⟩
  obtain ⟨status, decided⟩ := decided
  cases path with
  | next later =>
    have checking : Prog.Returns HeldByVec
        (limitCheckAndUpdateApplication message.data app cas message.reqTime) :=
      returns_limitCheckAndUpdate decided
    refine Prog.Returns.path (Prog.returns_bind checking fun result => ?_) later
      fun e member => held e (List.mem_cons_of_mem _ member)
    match result with
    | .ok _ => trivial
    | .error (.cacheUpdateFail _) => trivial
    | .error .durationOverflow => trivial

theorem UpdateGoes.append {message : Message} (goes : UpdateGoes message t) (u : List HostEvent) :
    UpdateGoes message (t ++ u) := by
  obtain ⟨app, cas, rest, rfl, verdict⟩ := goes
  refine ⟨app, cas, rest ++ u, rfl, verdict.imp_right fun passed => ?_⟩
  obtain ⟨app', info, pass, member⟩ := passed
  exact ⟨app', info, pass, List.mem_append_left u member⟩

end

section
variable {calls : ApiCalls} {sizes : Sizes} {s : SingletonService} {queueId : Nat} {message : Message}
  {t : List HostEvent} {q : HostProg (SingletonService × List BuiltReport)}

/-- A message that wants an update gets as far as the update does. -/
theorem onQueueReady_update (queue : s.queueId = some queueId)
    (wants : message.updateCacheFromSingleton = true)
    (path : Prog.Path (s.onQueueReady calls sizes)
      (⟨.dequeueSharedQueue queueId, .ok (some (.message message))⟩ :: t) q)
    (ended : ∀ c k, q ≠ .call c k) :
    (∃ p, Prog.Path (SingletonService.updateApplicationCache message.data message.reqTime) t p ∧
        ((p = .trap ∧ q = .trap) ∨ (p = .spin ∧ q = .spin) ∨ ∃ e, p = .done (.error e) ∧ q = .trap)) ∨
      ∃ update rest, t = update ++ rest ∧
        Prog.Path (SingletonService.updateApplicationCache message.data message.reqTime) update (.done (.ok ())) ∧
        Prog.Path (s.recordUsage calls sizes message.data) rest q := by
  unfold SingletonService.onQueueReady at path
  rw [queue] at path
  cases path with
  | next later =>
    have chosen : Prog.Path (if message.updateCacheFromSingleton = true then _ else _) t q := later
    rw [if_pos wants] at chosen
    rcases Prog.path_bind chosen with ⟨p, inside, rfl⟩ | ⟨update, rest, result, rfl, updated, after⟩
    · cases p with
      | trap => exact Or.inl ⟨.trap, inside, Or.inl ⟨rfl, rfl⟩⟩
      | spin => exact Or.inl ⟨.spin, inside, Or.inr (Or.inl ⟨rfl, rfl⟩)⟩
      | call c k => exact absurd rfl (ended c _)
      | done result =>
        cases result with
        | error e => exact Or.inl ⟨_, inside, Or.inr (Or.inr ⟨e, rfl, rfl⟩)⟩
        | ok => exact Or.inr ⟨t, [], (List.append_nil t).symm, inside, .start⟩
    · cases result with
      | error e =>
        cases after
        rw [List.append_nil]
        exact Or.inl ⟨_, updated, Or.inr (Or.inr ⟨e, rfl, rfl⟩)⟩
      | ok => exact Or.inr ⟨update, rest, rfl, updated, after⟩

/-- A plain message has its usage recorded. -/
theorem onQueueReady_plain (queue : s.queueId = some queueId)
    (path : Prog.Path (s.recordUsage calls sizes message.data) t q) :
    Prog.Path (s.onQueueReady calls sizes)
      (⟨.dequeueSharedQueue queueId, .ok (some (.message message.plain))⟩ :: t) q := by
  unfold SingletonService.onQueueReady
  rw [queue]
  exact .next path

/-- The usage of a message that wants an update is kept exactly where the update
goes through: its failure is unwrapped before the usage is recorded. -/
theorem keepsMessage_iff (builds : ∀ call, (calls.buildReport call).isSome)
    (separated : Separated s.deltaStore.deltas) (queue : s.queueId = some queueId)
    (wants : message.updateCacheFromSingleton = true) (held : ∀ e ∈ t, HeldByVec e)
    (path : Prog.Path (s.onQueueReady calls sizes)
      (⟨.dequeueSharedQueue queueId, .ok (some (.message message))⟩ :: t) q)
    (ended : ∀ c k, q ≠ .call c k) :
    KeepsMessage calls sizes s queueId message t q ↔ UpdateGoes message t := by
  rcases onQueueReady_update queue wants path ended with ⟨p, update, cut⟩ | ⟨update, rest, rfl, updated, recorded⟩
  · refine iff_of_false ?_ ?_
    · rintro ⟨_, _, _, result, _, rfl, _⟩
      rcases cut with ⟨_, same⟩ | ⟨_, same⟩ | ⟨_, _, same⟩
      · cases same
      · cases same
      · cases same
    · intro goes
      rcases cut with ⟨rfl, _⟩ | ⟨rfl, _⟩ | ⟨e, rfl, _⟩
      · exact (update_returns goes held update).1 rfl
      · exact (update_returns goes held update).2 rfl
      · cases (update_done_ok_iff update).mpr goes
  · refine iff_of_true ?_ (((update_done_ok_iff updated).mp rfl).append rest)
    have returns := (returns_recordUsage (fun _ => True) builds separated message.data).path recorded
      fun _ _ => trivial
    cases q with
    | trap => exact absurd rfl returns.1
    | spin => exact absurd rfl returns.2
    | call c k => exact absurd rfl (ended c k)
    | done result =>
      exact ⟨update, rest, _, result, rfl, rfl, updated, onQueueReady_plain queue recorded⟩

end

/-! A new service with room for some messages, and one that wants an update. -/

def roomyService : SingletonService := .start (some 7) { capacity := 1000 }

theorem roomyService_separated : Separated roomyService.deltaStore.deltas := by
  intro key member
  exact absurd member (AList.notMem_empty key)

def updateMessage : Message := { hitMessage with updateCacheFromSingleton := true }

/-- The application is cached and has no limits; the counter of the memory is not
reachable. -/
def updateTrace : List HostEvent :=
  [⟨.getSharedData "s_a".toList, .ok (some (.application (cachedWith ∅)), some 3)⟩,
    ⟨.getSharedData "s_a".toList, .ok (some (.application (cachedWith ∅)), some 3)⟩,
    ⟨.setSharedData "s_a".toList (some (.application (cachedWith ∅))) (some 3), .ok ()⟩,
    ⟨.getSharedData sharedMemoryCounterKey, .error .notFound⟩,
    ⟨.getSharedData sharedMemoryCounterKey, .error .notFound⟩,
    ⟨.getSharedData sharedMemoryCounterKey, .error .notFound⟩,
    ⟨.limitChecked (.ok (.authorized {})), ()⟩]

theorem updateTrace_path : ∃ result, Prog.Path (roomyService.onQueueReady oneHitCalls wasmSizes)
    (⟨.dequeueSharedQueue 7, .ok (some (.message updateMessage))⟩ :: updateTrace) (.done result) :=
  ⟨_, .next (.next (.next (.next (.next (.next (.next (.next .start)))))))⟩

theorem keepsMessage_cached : ∃ result,
    KeepsMessage oneHitCalls wasmSizes roomyService 7 updateMessage updateTrace (.done result) := by
  obtain ⟨result, path⟩ := updateTrace_path
  have held : ∀ e ∈ updateTrace, HeldByVec e := by
    simp only [updateTrace, List.forall_mem_cons, List.not_mem_nil, false_imp_iff, implies_true, and_true,
      HeldByVec]
    decide
  have goes : UpdateGoes updateMessage updateTrace :=
    ⟨cachedWith ∅, 3, _, rfl, Or.inr ⟨cachedWith ∅, {}, rfl, List.mem_cons_of_mem _ List.mem_cons_self⟩⟩
  have ended : ∀ c k, (.done result : HostProg (SingletonService × List BuiltReport)) ≠ .call c k := by
    rintro c k ⟨⟩
  exact ⟨result, (keepsMessage_iff (fun _ => rfl) roomyService_separated rfl rfl held path ended).mpr goes⟩

/-- The application is not cached: the callback panics with the message taken. -/
theorem not_keepsMessage_absent :
    Prog.Path (roomyService.onQueueReady oneHitCalls wasmSizes)
        [⟨.dequeueSharedQueue 7, .ok (some (.message updateMessage))⟩,
          ⟨.getSharedData "s_a".toList, .ok (none, none)⟩] .trap ∧
      ¬KeepsMessage oneHitCalls wasmSizes roomyService 7 updateMessage
        [⟨.getSharedData "s_a".toList, .ok (none, none)⟩] .trap := by
  refine ⟨.next (.next .start), ?_⟩
  rintro ⟨_, _, _, _, _, ended, _⟩
  cases ended

end ThreescaleCache
