import Mathlib.Logic.Relation
import ThreescaleCache.CacheHitRules
import ThreescaleCache.SingletonRoot

namespace ThreescaleCache
open Interaction

/-! Runs of the singleton: callbacks one after the other, each on any answers
of the host that let it end. -/

/-- The replies to the calls of a trace that went out. -/
def dispatches (t : List HostEvent) : List (Except Status Nat) :=
  t.filterMap fun e => match e with
    | ⟨.dispatchHttpCall _, reply⟩ => some reply
    | _ => none

/-- The tokens among the replies. -/
def tokensOf (replies : List (Except Status Nat)) : List Nat :=
  replies.filterMap fun reply => match reply with
    | .ok token => some token
    | .error _ => none

/-- The data of the messages that were dequeued. -/
def dequeued (t : List HostEvent) : List ThreescaleData :=
  t.filterMap fun e => match e with
    | ⟨.dequeueSharedQueue _, .ok (some (.message message))⟩ => some message.data
    | _ => none

@[simp] theorem dispatches_append (t t' : List HostEvent) :
    dispatches (t ++ t') = dispatches t ++ dispatches t' := List.filterMap_append

@[simp] theorem tokensOf_append (r r' : List (Except Status Nat)) :
    tokensOf (r ++ r') = tokensOf r ++ tokensOf r' := List.filterMap_append

@[simp] theorem dequeued_append (t t' : List HostEvent) :
    dequeued (t ++ t') = dequeued t ++ dequeued t' := List.filterMap_append

namespace SingletonService
variable {calls : ApiCalls} {sizes : Sizes} {s s' : SingletonService} {t : List HostEvent}
  {built : List BuiltReport}

/-! What a flush does -/

theorem performHttpCall_path {request : HttpRequest} {reply : Except Status Nat}
    (path : Prog.Path (performHttpCall request) t (.done reply)) :
    ∃ call, t = [⟨.dispatchHttpCall call, reply⟩] := by
  cases path with
  | next rest =>
    cases rest
    exact ⟨_, rfl⟩

/-- The outcome of sending a report for each of the `entries`. -/
structure SentReports (entries : List (Sigma fun _ : Str => AppMap Metrics)) (s : SingletonService)
    (t : List HostEvent) (s' : SingletonService) (built : List BuiltReport) : Prop where
  reports : List.Forall₂ (fun entry b => entry.1 = b.1 ∧ report entry.1 entry.2 = some b.2) entries built
  filed : ∀ token, token ∈ s'.reportRequests ↔ token ∈ s.reportRequests ∨ token ∈ tokensOf (dispatches t)
  kept : s' = { s with reportRequests := s'.reportRequests }
  called : (dispatches t).length = built.length
  nothingTaken : dequeued t = []

theorem sendReports_sent {entries : List (Sigma fun _ : Str => AppMap Metrics)}
    (path : Prog.Path (sendReports calls entries s) t (.done (s', built))) :
    SentReports entries s t s' built := by
  induction entries generalizing s t built with
  | nil =>
    cases path
    exact ⟨.nil, fun _ => by simp [tokensOf, dispatches], rfl, rfl, rfl⟩
  | cons entry rest ih =>
    obtain ⟨key, apps⟩ := entry
    unfold sendReports at path
    cases formed : report key apps with
    | none =>
      simp only [formed] at path
      cases path
    | some b =>
      cases request : calls.buildReport b.call with
      | none =>
        simp only [formed, request] at path
        cases path
      | some req =>
        simp only [formed, request] at path
        obtain ⟨t₁, t₂, reply, rfl, first, later⟩ := Prog.path_bind_done path
        obtain ⟨call, rfl⟩ := performHttpCall_path first
        cases reply with
        | ok token =>
          obtain ⟨t₃, t₄, ⟨s₁, more⟩, rfl, inner, last⟩ := Prog.path_bind_done later
          cases last
          have sent := ih inner
          refine ⟨.cons ⟨rfl, formed⟩ sent.reports, ?_, ?_, ?_, ?_⟩
          · intro other
            rw [sent.filed, AList.mem_insert]
            simp [dispatches, tokensOf]
            tauto
          · rw [sent.kept]
          · simpa [dispatches] using sent.called
          · simpa [dequeued] using sent.nothingTaken
        | error e =>
          obtain ⟨t₃, t₄, ⟨s₁, more⟩, rfl, inner, last⟩ := Prog.path_bind_done later
          cases last
          have sent := ih inner
          refine ⟨.cons ⟨rfl, formed⟩ sent.reports, ?_, sent.kept, ?_, ?_⟩
          · intro other
            simpa [dispatches, tokensOf] using sent.filed other
          · simpa [dispatches] using sent.called
          · simpa [dequeued] using sent.nothingTaken

/-- The outcome of sending the authorize requests. -/
structure SentAuthRequests (s : SingletonService) (t : List HostEvent) (s' : SingletonService) : Prop where
  filed : ∀ token, token ∈ s'.authRequests ↔ token ∈ s.authRequests ∨ token ∈ tokensOf (dispatches t)
  kept : s' = { s with authRequests := s'.authRequests }
  nothingTaken : dequeued t = []

theorem sendAuthRequests_sent {entries : List (Sigma fun _ : Str => CacheKey × ServiceToken)}
    (path : Prog.Path (sendAuthRequests calls entries s) t (.done s')) : SentAuthRequests s t s' := by
  induction entries generalizing s t with
  | nil =>
    cases path
    exact ⟨fun _ => by simp [tokensOf, dispatches], rfl, rfl⟩
  | cons entry rest ih =>
    obtain ⟨_, cacheKey, serviceToken⟩ := entry
    unfold sendAuthRequests at path
    cases request : calls.buildAuth (authCall cacheKey serviceToken) with
    | none =>
      simp only [request] at path
      exact ih path
    | some req =>
      simp only [request] at path
      obtain ⟨t₁, t₂, reply, rfl, first, later⟩ := Prog.path_bind_done path
      obtain ⟨call, rfl⟩ := performHttpCall_path first
      cases reply with
      | ok token =>
        have sent := ih later
        refine ⟨?_, ?_, ?_⟩
        · intro other
          rw [sent.filed, AList.mem_insert]
          simp [dispatches, tokensOf]
          tauto
        · rw [sent.kept]
        · simpa [dequeued] using sent.nothingTaken
      | error e =>
        have sent := ih later
        refine ⟨?_, sent.kept, ?_⟩
        · intro other
          simpa [dispatches, tokensOf] using sent.filed other
        · simpa [dequeued] using sent.nothingTaken

/-- The outcome of a flush. The calls for the reports go out first, then
those of the refresh. -/
structure Flushed (s : SingletonService) (t : List HostEvent) (s' : SingletonService)
    (built : List BuiltReport) : Prop where
  reports : List.Forall₂ (fun entry b => entry.1 = b.1 ∧ report entry.1 entry.2 = some b.2)
    s.deltaStore.deltas.entries built
  emptied : s'.deltaStore = { s.deltaStore with deltas := ∅, memoryAllocated := 0 }
  queueId : s'.queueId = s.queueId
  cacheKeys : s'.cacheKeys = s.cacheKeys
  reportsFiled : ∀ token, token ∈ s'.reportRequests ↔
    token ∈ s.reportRequests ∨ token ∈ tokensOf ((dispatches t).take built.length)
  authsFiled : ∀ token, token ∈ s'.authRequests ↔
    token ∈ s.authRequests ∨ token ∈ tokensOf ((dispatches t).drop built.length)
  nothingTaken : dequeued t = []

theorem flushLocalCache_flushed
    (path : Prog.Path (s.flushLocalCache calls) t (.done (s', built))) : Flushed s t s' built := by
  obtain ⟨t₁, t₂, ⟨s₁, reports⟩, rfl, first, later⟩ := Prog.path_bind_done path
  obtain ⟨t₃, t₄, s₂, rfl, second, last⟩ := Prog.path_bind_done later
  cases last
  have sent := sendReports_sent first
  have refreshed := sendAuthRequests_sent second
  have taken : (dispatches (t₁ ++ (t₃ ++ []))).take built.length = dispatches t₁ := by
    rw [List.append_nil, dispatches_append, ← sent.called]
    exact List.take_left
  have dropped : (dispatches (t₁ ++ (t₃ ++ []))).drop built.length = dispatches t₃ := by
    rw [List.append_nil, dispatches_append, ← sent.called]
    exact List.drop_left
  refine ⟨sent.reports, ?_, ?_, ?_, ?_, ?_, ?_⟩
  · rw [refreshed.kept, sent.kept]
    rfl
  · rw [refreshed.kept, sent.kept]
    rfl
  · rw [refreshed.kept, sent.kept]
    rfl
  · intro token
    rw [taken, refreshed.kept]
    exact sent.filed token
  · intro token
    rw [dropped, refreshed.filed, sent.kept]
    rfl
  · rw [List.append_nil, dequeued_append, sent.nothingTaken, refreshed.nothingTaken]
    rfl

/-! What the callbacks do -/

/-- The service once a message is noted and filed, before any flush. -/
def filed (sizes : Sizes) (s : SingletonService) (data : ThreescaleData) : SingletonService :=
  { s.noteCacheKey data with deltaStore := (s.deltaStore.updateDeltaStore sizes data).1 }

@[simp] theorem noteCacheKey_queueId (s : SingletonService) (data : ThreescaleData) :
    (s.noteCacheKey data).queueId = s.queueId := by
  unfold noteCacheKey
  dsimp only
  split <;> rfl

@[simp] theorem noteCacheKey_deltaStore (s : SingletonService) (data : ThreescaleData) :
    (s.noteCacheKey data).deltaStore = s.deltaStore := by
  unfold noteCacheKey
  dsimp only
  split <;> rfl

@[simp] theorem noteCacheKey_reportRequests (s : SingletonService) (data : ThreescaleData) :
    (s.noteCacheKey data).reportRequests = s.reportRequests := by
  unfold noteCacheKey
  dsimp only
  split <;> rfl

@[simp] theorem noteCacheKey_authRequests (s : SingletonService) (data : ThreescaleData) :
    (s.noteCacheKey data).authRequests = s.authRequests := by
  unfold noteCacheKey
  dsimp only
  split <;> rfl

/-- From `s` the callback ends at once, or with a flush. -/
inductive Ended (s : SingletonService) (t : List HostEvent) (s' : SingletonService)
    (built : List BuiltReport) : Prop
  | kept (same : s' = s) (none_ : built = []) (silent : dispatches t = []) (nothingTaken : dequeued t = [])
  | flushed (flushed : Flushed s t s' built)

theorem Ended.nothingTaken (ended : Ended s t s' built) : dequeued t = [] := by
  cases ended with
  | kept _ _ _ nothingTaken => exact nothingTaken
  | flushed flushed => exact flushed.nothingTaken

theorem recordUsage_ended {data : ThreescaleData}
    (path : Prog.Path (s.recordUsage calls sizes data) t (.done (s', built))) :
    Ended (s.filed sizes data) t s' built ∧
      ((s.deltaStore.updateDeltaStore sizes data).2 = .flush → Flushed (s.filed sizes data) t s' built) := by
  unfold recordUsage at path
  dsimp only at path
  rw [noteCacheKey_deltaStore] at path
  by_cases full : (s.deltaStore.updateDeltaStore sizes data).2 = .flush
  · rw [if_pos full] at path
    have flushed := flushLocalCache_flushed path
    exact ⟨.flushed flushed, fun _ => flushed⟩
  · rw [if_neg full] at path
    cases path
    exact ⟨.kept rfl rfl rfl rfl, fun flush => absurd flush full⟩

theorem dispatches_inward (inward : ∀ e ∈ t, Inward e.1) : dispatches t = [] := by
  refine List.filterMap_eq_nil_iff.mpr fun e member => ?_
  obtain ⟨c, reply⟩ := e
  cases c with
  | dispatchHttpCall call => exact absurd (inward _ member) id
  | _ => rfl

theorem dequeued_inward (inward : ∀ e ∈ t, Inward e.1) : dequeued t = [] := by
  refine List.filterMap_eq_nil_iff.mpr fun e member => ?_
  obtain ⟨c, reply⟩ := e
  cases c with
  | dequeueSharedQueue queueId => exact absurd (inward _ member) id
  | _ => rfl

theorem only_updateApplicationCache (data : ThreescaleData) (reqTime : Duration) :
    (updateApplicationCache data reqTime).Only CheckCall := by
  refine Prog.only_bind ((only_getApplicationFromCache _).mono fun _ side => .filing (.side side)) fun found => ?_
  cases found with
  | error e => trivial
  | ok found =>
    obtain ⟨application, cas⟩ := found
    refine Prog.only_bind (only_limitCheckAndUpdate data application cas reqTime) fun result => ?_
    match result with
    | .ok _ => trivial
    | .error (.cacheUpdateFail _) => trivial
    | .error .durationOverflow => trivial

/-- What came of an entry of the queue. -/
inductive Received (sizes : Sizes) (s : SingletonService) (t : List HostEvent) (s' : SingletonService)
    (built : List BuiltReport) : Prop
  | nothing (same : s' = s) (none_ : built = []) (silent : dispatches t = []) (nothingTaken : dequeued t = [])
  | message (data : ThreescaleData) (later : List HostEvent) (taken : dequeued t = [data])
      (sent : dispatches t = dispatches later) (ended : Ended (s.filed sizes data) later s' built)
      (flush : (s.deltaStore.updateDeltaStore sizes data).2 = .flush →
        Flushed (s.filed sizes data) later s' built)

theorem onQueueReady_received
    (path : Prog.Path (s.onQueueReady calls sizes) t (.done (s', built))) :
    Received sizes s t s' built := by
  unfold onQueueReady at path
  cases queue : s.queueId with
  | none =>
    simp only [queue] at path
    cases path
  | some queueId =>
    simp only [queue] at path
    obtain ⟨t₁, t₂, entry, rfl, first, later⟩ := Prog.path_bind_done path
    cases first with
    | next rest =>
      cases rest
      match entry, later with
      | .error e, later =>
        cases later
        exact .nothing rfl rfl rfl rfl
      | .ok none, later =>
        cases later
        exact .nothing rfl rfl rfl rfl
      | .ok (some (.waiterAction _)), later => cases later
      | .ok (some (.message message)), later =>
        dsimp only at later
        split at later
        · obtain ⟨t₃, t₄, result, rfl, update, recorded⟩ := Prog.path_bind_done later
          have inward := ((only_updateApplicationCache message.data message.reqTime).mono
            fun _ => inward_checkCall).path update
          cases result with
          | error e => cases recorded
          | ok =>
            obtain ⟨ended, flush⟩ := recordUsage_ended recorded
            refine .message message.data t₄ ?_ ?_ ended flush
            · have first : dequeued (t₃ ++ t₄) = [] := by
                rw [dequeued_append, dequeued_inward inward, ended.nothingTaken]
                rfl
              exact congrArg (message.data :: ·) first
            · have first : dispatches (t₃ ++ t₄) = dispatches t₄ := by
                rw [dispatches_append, dispatches_inward inward]
                rfl
              exact first
        · obtain ⟨ended, flush⟩ := recordUsage_ended later
          exact .message message.data t₂ (congrArg (message.data :: ·) ended.nothingTaken) rfl ended flush

/-- A response that the dispatcher does not take for one of a refresh. -/
def Bare (response : CallResponse) : Prop :=
  response.status = some timeoutStatus ∨ response.body = none

/-- A call that changes no application and erases nothing. -/
def SparesApplications (c : HostCall) : Prop :=
  ∀ key value cas, c = .setSharedData key value cas → ∃ size, value = some (.memoryCounter size)

/-- What handling a response does to the service. -/
inductive Responded (s : SingletonService) (token : Nat) (response : CallResponse) (t : List HostEvent) :
    SingletonService → Prop
  | report (bare : Bare response) (known : token ∈ s.reportRequests)
      (spared : ∀ e ∈ t, SparesApplications e.1) : Responded s token response t (s.handleReportResponse token)
  | timeout (late : response.status = some timeoutStatus) (unknown : token ∉ s.reportRequests)
      (spared : ∀ e ∈ t, SparesApplications e.1) :
      Responded s token response t { s with authRequests := s.authRequests.erase token }
  | ignored (late : response.status ≠ some timeoutStatus) (empty : response.body = none)
      (unknown : token ∉ s.reportRequests) : Responded s token response t s
  | refreshed (body : ¬Bare response) :
      Responded s token response t { s with authRequests := s.authRequests.erase token }
  | refused (body : ¬Bare response) (cacheKey : CacheKey)
      (known : s.authRequests.lookup token = some cacheKey) :
      Responded s token response t
        { s with
          cacheKeys := s.cacheKeys.erase cacheKey.asString
          authRequests := s.authRequests.erase token }
  | stray (body : ¬Bare response) (unknown : s.authRequests.lookup token = none) :
      Responded s token response t s

theorem erase_of_notMem {V : Type} {m : TokenMap V} {token : Nat} (absent : token ∉ m) :
    m.erase token = m :=
  AList.ext (List.kerase_of_notMem_keys absent)

theorem handleAuthFailure_path {token : Nat}
    (path : Prog.Path (s.handleAuthFailure token) t (.done s')) :
    (∃ cacheKey, s.authRequests.lookup token = some cacheKey ∧ s' =
      { s with
        cacheKeys := s.cacheKeys.erase cacheKey.asString
        authRequests := s.authRequests.erase token }) ∨
      (s.authRequests.lookup token = none ∧ s' = s) := by
  unfold handleAuthFailure at path
  cases known : s.authRequests.lookup token with
  | none =>
    simp only [known] at path
    cases path
    exact Or.inr ⟨rfl, rfl⟩
  | some cacheKey =>
    simp only [known] at path
    cases path with
    | next counted =>
      cases counted with
      | next rest =>
        cases rest
        exact Or.inl ⟨cacheKey, rfl, rfl⟩

theorem onHttpCallResponse_responded {token : Nat} {response : CallResponse}
    (path : Prog.Path (s.onHttpCallResponse token response) t (.done s')) :
    Responded s token response t s' := by
  unfold onHttpCallResponse at path
  cases status_ : response.status with
  | none =>
    simp only [status_] at path
    cases path
  | some status =>
    simp only [status_] at path
    by_cases late : status = timeoutStatus
    · subst late
      rw [if_neg (not_not_intro rfl)] at path
      obtain ⟨t₁, t₂, _, rfl, first, later⟩ := Prog.path_bind_done path
      have spared : ∀ e ∈ t₁, SparesApplications e.1 := by
        cases first with
        | next rest =>
          cases rest
          intro e member
          rw [List.mem_singleton.mp member]
          exact fun _ _ _ same => by cases same
      split at later
      · cases later
        rw [List.append_nil]
        exact .report (Or.inl status_) (by assumption) spared
      · split at later
        · cases later
          rw [List.append_nil]
          exact .timeout status_ (by assumption) spared
        · rename_i unknown absent
          cases later
          rw [List.append_nil]
          have same : s.authRequests.erase token = s.authRequests := erase_of_notMem absent
          have ended : Responded s token response t₁
              { s with authRequests := s.authRequests.erase token } := .timeout status_ unknown spared
          rwa [same] at ended
    · rw [if_pos late] at path
      have notLate : response.status ≠ some timeoutStatus := by
        rw [status_]
        exact fun same => late (Option.some.inj same)
      cases body : response.body with
      | none =>
        simp only [body] at path
        split at path
        · cases path
          exact .report (Or.inr body) (by assumption) (by simp)
        · cases path
          exact .ignored notLate body (by assumption)
      | some bytes =>
        have bare : ¬Bare response := by
          intro bare
          rcases bare with same | absent
          · exact notLate same
          · rw [body] at absent
            cases absent
        simp only [body] at path
        obtain ⟨t₁, t₂, result, rfl, _, later⟩ := Prog.path_bind_done path
        match result, later with
        | .error .authResponse, later =>
          rcases handleAuthFailure_path later with ⟨cacheKey, known, rfl⟩ | ⟨unknown, rfl⟩
          · exact .refused bare cacheKey known
          · exact .stray bare unknown
        | .ok (), later =>
          cases later
          exact .refreshed bare
        | .error (.getCacheFailure _), later | .error (.setCacheFailure _ _), later
        | .error (.emptyAuthUsages _), later | .error .authResponseProcess, later
        | .error .authAppKeysMissing, later | .error .negativeTimeErr, later
        | .error (.updateMetricsFail _), later =>
          cases later
          exact .refreshed bare

theorem only_refreshApplication (response : AuthorizationStatus) :
    (refreshApplication response).Only FilingCall := by
  rcases refreshApplication_spec response with ⟨-, traps | ⟨e, -, fails⟩⟩ | ⟨app, _, -, -, files⟩
  · rw [traps]
    trivial
  · rw [fails]
    trivial
  · rw [files]
    exact Prog.only_bind (only_setApplicationToCache app 0) fun set => trivial

theorem only_handleAuthResponse (bytes : ResponseBody) (status : Str) :
    (handleAuthResponse bytes status).Only FilingCall := by
  match bytes with
  | .notUtf8 | .unparsable | .parsed (.error _) => trivial
  | .parsed (.status data) =>
    unfold handleAuthResponse
    dsimp only
    split
    · exact only_refreshApplication data
    · trivial

/-- The calls that a response leads to. -/
inductive RefreshCall : HostCall → Prop
  | filing {c : HostCall} (filing : FilingCall c) : RefreshCall c
  | erase (key : Str) : RefreshCall (.setSharedData key none none)
  | count (stat : Stat) (delta : Int) : RefreshCall (.incrementMetric stat delta)

/-- A response leads to no calls out, and no message is taken. -/
theorem inward_refreshCall {c : HostCall} (refresh : RefreshCall c) : Inward c := by
  cases refresh with
  | filing filing => exact inward_filingCall filing
  | erase | count => trivial

theorem only_handleAuthFailure (s : SingletonService) (token : Nat) :
    (s.handleAuthFailure token).Only RefreshCall := by
  unfold handleAuthFailure
  cases s.authRequests.lookup token with
  | none => trivial
  | some cacheKey => exact ⟨.erase _, fun _ => ⟨.count _ _, fun _ => trivial⟩⟩

theorem only_onHttpCallResponse (s : SingletonService) (token : Nat) (response : CallResponse) :
    (s.onHttpCallResponse token response).Only RefreshCall := by
  unfold onHttpCallResponse
  cases response.status with
  | none => trivial
  | some status =>
    dsimp only
    split
    · cases response.body with
      | none =>
        dsimp only
        split <;> trivial
      | some bytes =>
        refine Prog.only_bind ((only_handleAuthResponse bytes status).mono fun _ => .filing) fun result => ?_
        split
        · exact only_handleAuthFailure s token
        · trivial
    · refine ⟨.count _ _, fun _ => ?_⟩
      show Prog.Only RefreshCall (if _ then _ else if _ then _ else _)
      split
      · trivial
      · split <;> trivial

/-- The calls of the singleton. -/
inductive SingletonCall : HostCall → Prop
  | refresh {c : HostCall} (refresh : RefreshCall c) : SingletonCall c
  | check {c : HostCall} (check : CheckCall c) : SingletonCall c
  | dispatch (call : HttpCall) : SingletonCall (.dispatchHttpCall call)
  | dequeue (queueId : Nat) : SingletonCall (.dequeueSharedQueue queueId)

/-- The calls of a flush. -/
inductive FlushCall : HostCall → Prop
  | dispatch (call : HttpCall) : FlushCall (.dispatchHttpCall call)

theorem FlushCall.singleton {c : HostCall} (flush : FlushCall c) : SingletonCall c := by
  cases flush with
  | dispatch call => exact .dispatch call

theorem only_performHttpCall (request : HttpRequest) : (performHttpCall request).Only FlushCall :=
  ⟨.dispatch _, fun _ => trivial⟩

theorem only_sendReports (calls : ApiCalls) (entries : List (Sigma fun _ : Str => AppMap Metrics))
    (s : SingletonService) : (sendReports calls entries s).Only FlushCall := by
  induction entries generalizing s with
  | nil => trivial
  | cons entry rest ih =>
    obtain ⟨key, apps⟩ := entry
    unfold sendReports
    split
    · trivial
    · split
      · trivial
      · refine Prog.only_bind (only_performHttpCall _) fun reply => ?_
        cases reply with
        | ok token => exact Prog.only_bind (ih _) fun _ => trivial
        | error e => exact Prog.only_bind (ih _) fun _ => trivial

theorem only_sendAuthRequests (calls : ApiCalls)
    (entries : List (Sigma fun _ : Str => CacheKey × ServiceToken)) (s : SingletonService) :
    (sendAuthRequests calls entries s).Only FlushCall := by
  induction entries generalizing s with
  | nil => trivial
  | cons entry rest ih =>
    obtain ⟨key, cacheKey, serviceToken⟩ := entry
    unfold sendAuthRequests
    split
    · exact ih s
    · refine Prog.only_bind (only_performHttpCall _) fun reply => ?_
      cases reply with
      | ok token => exact ih _
      | error e => exact ih _

theorem only_flushLocalCache (calls : ApiCalls) (s : SingletonService) :
    (s.flushLocalCache calls).Only FlushCall :=
  Prog.only_bind (only_sendReports calls _ _) fun _ =>
    Prog.only_bind (only_sendAuthRequests calls _ _) fun _ => trivial

theorem only_recordUsage (calls : ApiCalls) (sizes : Sizes) (s : SingletonService) (data : ThreescaleData) :
    (s.recordUsage calls sizes data).Only FlushCall := by
  unfold recordUsage
  dsimp only
  split
  · exact only_flushLocalCache calls _
  · trivial

theorem only_onQueueReady (calls : ApiCalls) (sizes : Sizes) (s : SingletonService) :
    (s.onQueueReady calls sizes).Only SingletonCall := by
  unfold onQueueReady
  cases s.queueId with
  | none => trivial
  | some queueId =>
    refine ⟨.dequeue queueId, fun reply => ?_⟩
    match reply with
    | .error _ | .ok none | .ok (some (.waiterAction _)) => trivial
    | .ok (some (.message message)) =>
      show Prog.Only SingletonCall (if message.updateCacheFromSingleton then _ else _)
      split
      · refine Prog.only_bind ((only_updateApplicationCache message.data message.reqTime).mono
          fun _ => .check) fun result => ?_
        cases result with
        | ok => exact (only_recordUsage calls sizes s message.data).mono fun _ => FlushCall.singleton
        | error e => trivial
      · exact (only_recordUsage calls sizes s message.data).mono fun _ => FlushCall.singleton

theorem only_onTick (calls : ApiCalls) (s : SingletonService) : (s.onTick calls).Only FlushCall := by
  unfold onTick
  split
  · exact only_flushLocalCache calls s
  · trivial

theorem onTick_ended (path : Prog.Path (s.onTick calls) t (.done (s', built))) :
    Ended s t s' built := by
  unfold onTick at path
  split at path
  · exact .flushed (flushLocalCache_flushed path)
  · cases path
    exact .kept rfl rfl rfl rfl

end SingletonService

/-! Runs -/

/-- What the host calls the singleton for. -/
inductive Occasion where
  | queueReady
  | tick
  | response (token : Nat) (response : CallResponse)

def Occasion.callback (calls : ApiCalls) (sizes : Sizes) (s : SingletonService) :
    Occasion → HostProg (SingletonService × List BuiltReport)
  | .queueReady => s.onQueueReady calls sizes
  | .tick => s.onTick calls
  | .response token reply => do
    let s ← s.onHttpCallResponse token reply
    pure (s, [])

/-- The service with the history of its run: the data of the messages that it
took, the reports that it built, the tokens of the calls for them, those of
the other calls, and the tokens whose response was handled. -/
structure SingletonRun where
  service : SingletonService
  taken : List ThreescaleData
  built : List BuiltReport
  reportTokens : List Nat
  authTokens : List Nat
  answered : List Nat

namespace SingletonRun

def begin (queueId : Option Nat) (config : DeltaStoreConfig) : SingletonRun where
  service := .start queueId config
  taken := []
  built := []
  reportTokens := []
  authTokens := []
  answered := []

/-- The run after a callback with the calls `t`, which ended with the service
`s` and the reports `built`. The first calls out are those of the reports. -/
def after (r : SingletonRun) (occasion : Occasion) (t : List HostEvent) (s : SingletonService)
    (built : List BuiltReport) : SingletonRun where
  service := s
  taken := r.taken ++ dequeued t
  built := r.built ++ built
  reportTokens := r.reportTokens ++ tokensOf ((dispatches t).take built.length)
  authTokens := r.authTokens ++ tokensOf ((dispatches t).drop built.length)
  answered := match occasion with
    | .response token _ => r.answered ++ [token]
    | _ => r.answered

/-- A callback that `admits` lets happen, with the calls that it makes. -/
inductive Step (calls : ApiCalls) (sizes : Sizes)
    (admits : SingletonRun → Occasion → List HostEvent → Prop) (r : SingletonRun) : SingletonRun → Prop
  | callback (occasion : Occasion) (t : List HostEvent) (s : SingletonService) (built : List BuiltReport)
      (admitted : admits r occasion t)
      (path : Prog.Path (occasion.callback calls sizes r.service) t (.done (s, built))) :
      Step calls sizes admits r (r.after occasion t s built)

/-- The runs of a singleton from its start. -/
def Runs (calls : ApiCalls) (sizes : Sizes) (admits : SingletonRun → Occasion → List HostEvent → Prop)
    (queueId : Option Nat) (config : DeltaStoreConfig) : SingletonRun → Prop :=
  Relation.ReflTransGen (Step calls sizes admits) (begin queueId config)

variable {calls : ApiCalls} {sizes : Sizes} {admits : SingletonRun → Occasion → List HostEvent → Prop}
  {queueId : Option Nat} {config : DeltaStoreConfig}

/-- What holds at the start and is preserved by every step holds in all runs. -/
theorem Runs.invariant {Inv : SingletonRun → Prop} {r : SingletonRun}
    (runs : Runs calls sizes admits queueId config r) (start : Inv (begin queueId config))
    (step : ∀ r r', Inv r → Step calls sizes admits r r' → Inv r') : Inv r := by
  induction runs with
  | refl => exact start
  | tail _ last ih => exact step _ _ ih last

/-- How a callback ends, by its occasion. -/
theorem callback_ended {r : SingletonRun} {occasion : Occasion} {t : List HostEvent}
    {s : SingletonService} {built : List BuiltReport}
    (path : Prog.Path (occasion.callback calls sizes r.service) t (.done (s, built))) :
    (occasion = .queueReady ∧ SingletonService.Received sizes r.service t s built) ∨
      (occasion = .tick ∧ SingletonService.Ended r.service t s built) ∨
      ∃ token response, occasion = .response token response ∧ built = [] ∧ dispatches t = [] ∧
        dequeued t = [] ∧ SingletonService.Responded r.service token response t s := by
  cases occasion with
  | queueReady => exact Or.inl ⟨rfl, SingletonService.onQueueReady_received path⟩
  | tick => exact Or.inr (Or.inl ⟨rfl, SingletonService.onTick_ended path⟩)
  | response token response =>
    obtain ⟨t₁, t₂, s₁, rfl, first, later⟩ := Prog.path_bind_done path
    cases later
    rw [List.append_nil]
    have inward := ((SingletonService.only_onHttpCallResponse r.service token response).mono
      fun _ => SingletonService.inward_refreshCall).path first
    exact Or.inr (Or.inr ⟨token, response, rfl, rfl, SingletonService.dispatches_inward inward,
      SingletonService.dequeued_inward inward, SingletonService.onHttpCallResponse_responded first⟩)

end SingletonRun
/-! A service that has met one message, for the runs that are shown. -/

/-- Requests as the `threescalers` crate builds them for `oneHit`. -/
def oneHitCalls : ApiCalls where
  buildReport := fun _ => some
    { method := "POST".toList
      uri := "/transactions.xml".toList
      headers := [("3scale-options".toList, "flat_usage=1".toList)]
      body := some ("service_token=t&service_id=s" ++
        "&transactions[0][app_id]=a&transactions[0][usage][hits]=1").toList }
  buildAuth := fun _ => some
    { method := "GET".toList
      uri := "/transactions/authorize.xml?service_token=t&service_id=s&app_id=a".toList
      headers := [("3scale-options".toList, "hierarchy=1&list_app_keys=1".toList)]
      body := none }

def wasmSizes : Sizes where
  string := 12
  appIdentifier := 24
  appMap := 32
  metricMap := 32

def hitMessage : Message where
  updateCacheFromSingleton := false
  data := oneHit
  reqTime := .fromSecs 1000000

def hitReport : Report where
  serviceId := ['s']
  serviceToken := ['t']
  usages := (∅ : AppMap (List (Str × Str))).insert ['a'] (oneHit.appId, [("hits".toList, ['1'])])

/-- A service that has sent a report with token 1 and a refresh with token 2. -/
def afterHit : SingletonService where
  queueId := some 7
  deltaStore := { deltas := ∅, memoryAllocated := 0, config := { capacity := 1 } }
  cacheKeys := (∅ : HashMap (CacheKey × ServiceToken)).insert "s_a".toList (⟨['s'], oneHit.appId⟩, ['t'])
  reportRequests := (∅ : TokenMap Report).insert 1 hitReport
  authRequests := (∅ : TokenMap CacheKey).insert 2 ⟨['s'], oneHit.appId⟩

/-- The calls of the callback for `hitMessage`, when both requests go out. -/
def flushTrace : List HostEvent :=
  [⟨.dequeueSharedQueue 7, .ok (some (.message hitMessage))⟩,
    ⟨.dispatchHttpCall
      { cluster := "outbound|443||su1.3scale.net".toList
        headers :=
          [(":authority".toList, "su1.3scale.net".toList), (":scheme".toList, "https".toList),
            (":method".toList, "POST".toList), (":path".toList, "/transactions.xml".toList),
            ("3scale-options".toList, "flat_usage=1".toList)]
        body := some ("service_token=t&service_id=s" ++
          "&transactions[0][app_id]=a&transactions[0][usage][hits]=1").toList
        timeout := .fromMillis 5000 }, .ok 1⟩,
    ⟨.dispatchHttpCall
      { cluster := "outbound|443||su1.3scale.net".toList
        headers :=
          [(":authority".toList, "su1.3scale.net".toList), (":scheme".toList, "https".toList),
            (":method".toList, "GET".toList),
            (":path".toList,
              "/transactions/authorize.xml?service_token=t&service_id=s&app_id=a".toList),
            ("3scale-options".toList, "hierarchy=1&list_app_keys=1".toList)]
        body := none
        timeout := .fromMillis 5000 }, .ok 2⟩]

theorem flushTrace_path :
    Prog.Path ((SingletonRun.begin (some 7) { capacity := 1 }).service.onQueueReady oneHitCalls wasmSizes)
      flushTrace (.done (afterHit, [("s_t".toList, hitReport)])) :=
  .next (.next (.next .start))

def flushedRun : SingletonRun :=
  (SingletonRun.begin (some 7) { capacity := 1 }).after .queueReady flushTrace afterHit
    [("s_t".toList, hitReport)]

end ThreescaleCache
