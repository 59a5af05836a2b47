import ThreescaleCache.SingletonRun

namespace ThreescaleCache
open Interaction

/-! Which response goes with which request: the bookkeeping of the tokens. -/

namespace SingletonRun

/-- A token whose response is still to come. -/
def Due (r : SingletonRun) (token : Nat) : Prop :=
  (token ∈ r.reportTokens ∨ token ∈ r.authTokens) ∧ token ∉ r.answered

/-- The host hands out each token once, and delivers one response for it. -/
def OneResponse (r : SingletonRun) (occasion : Occasion) (t : List HostEvent) : Prop :=
  (tokensOf (dispatches t)).Nodup ∧
    (∀ token ∈ tokensOf (dispatches t), token ∉ r.reportTokens ∧ token ∉ r.authTokens) ∧
    ∀ token response, occasion = .response token response → r.Due token

/-- Each response due belongs to an entry of the one map that its request was
entered in. -/
structure Booked (r : SingletonRun) : Prop where
  disjoint : ∀ token, token ∈ r.reportTokens → token ∉ r.authTokens
  reports : ∀ token, token ∈ r.service.reportRequests → token ∈ r.reportTokens
  auths : ∀ token, token ∈ r.service.authRequests → token ∈ r.authTokens
  dueReport : ∀ token, token ∈ r.reportTokens → token ∉ r.answered → token ∈ r.service.reportRequests
  dueAuth : ∀ token, token ∈ r.authTokens → token ∉ r.answered → token ∈ r.service.authRequests

theorem booked_begin (queueId : Option Nat) (config : DeltaStoreConfig) :
    Booked (begin queueId config) := by
  refine ⟨?_, ?_, ?_, ?_, ?_⟩
  · intro token sent
    cases sent
  · intro token entered
    exact absurd entered (AList.notMem_empty token)
  · intro token entered
    exact absurd entered (AList.notMem_empty token)
  · intro token sent
    cases sent
  · intro token sent
    cases sent

theorem tokens_split (replies : List (Except Status Nat)) (n : Nat) :
    tokensOf replies = tokensOf (replies.take n) ++ tokensOf (replies.drop n) := by
  rw [← tokensOf_append, List.take_append_drop]

/-- The calls of a flush are entered with their tokens. -/
theorem Booked.entered {r : SingletonRun} {occasion : Occasion} {t : List HostEvent}
    {s : SingletonService} {built : List BuiltReport} (booked : r.Booked)
    (distinct : (tokensOf (dispatches t)).Nodup)
    (fresh : ∀ token ∈ tokensOf (dispatches t), token ∉ r.reportTokens ∧ token ∉ r.authTokens)
    (unanswered : (r.after occasion t s built).answered = r.answered)
    (reportsFiled : ∀ token, token ∈ s.reportRequests ↔
      token ∈ r.service.reportRequests ∨ token ∈ tokensOf ((dispatches t).take built.length))
    (authsFiled : ∀ token, token ∈ s.authRequests ↔
      token ∈ r.service.authRequests ∨ token ∈ tokensOf ((dispatches t).drop built.length)) :
    (r.after occasion t s built).Booked := by
  rw [tokens_split _ built.length] at distinct fresh
  have apart := (List.nodup_append.mp distinct).2.2
  refine ⟨?_, ?_, ?_, ?_, ?_⟩
  · intro token report auth
    rcases List.mem_append.mp report with oldReport | newReport
    · rcases List.mem_append.mp auth with oldAuth | newAuth
      · exact booked.disjoint token oldReport oldAuth
      · exact (fresh token (List.mem_append_right _ newAuth)).1 oldReport
    · rcases List.mem_append.mp auth with oldAuth | newAuth
      · exact (fresh token (List.mem_append_left _ newReport)).2 oldAuth
      · exact apart token newReport token newAuth rfl
  · intro token entered
    rcases (reportsFiled token).mp entered with old | new
    · exact List.mem_append_left _ (booked.reports token old)
    · exact List.mem_append_right _ new
  · intro token entered
    rcases (authsFiled token).mp entered with old | new
    · exact List.mem_append_left _ (booked.auths token old)
    · exact List.mem_append_right _ new
  · intro token sent open_
    rw [unanswered] at open_
    refine (reportsFiled token).mpr ?_
    exact (List.mem_append.mp sent).imp_left fun old => booked.dueReport token old open_
  · intro token sent open_
    rw [unanswered] at open_
    refine (authsFiled token).mpr ?_
    exact (List.mem_append.mp sent).imp_left fun old => booked.dueAuth token old open_

/-- A callback that does not flush enters nothing. -/
theorem Booked.ended {r : SingletonRun} {occasion : Occasion} {t later : List HostEvent}
    {s₁ s : SingletonService} {built : List BuiltReport} (booked : r.Booked)
    (distinct : (tokensOf (dispatches t)).Nodup)
    (fresh : ∀ token ∈ tokensOf (dispatches t), token ∉ r.reportTokens ∧ token ∉ r.authTokens)
    (unanswered : (r.after occasion t s built).answered = r.answered)
    (sent : dispatches t = dispatches later) (ended : SingletonService.Ended s₁ later s built)
    (reportRequests : s₁.reportRequests = r.service.reportRequests)
    (authRequests : s₁.authRequests = r.service.authRequests) :
    (r.after occasion t s built).Booked := by
  cases ended with
  | kept same none_ silent =>
    subst same
    refine booked.entered distinct fresh unanswered ?_ ?_
    · simp [sent, silent, tokensOf, reportRequests]
    · simp [sent, silent, tokensOf, authRequests]
  | flushed flushed =>
    refine booked.entered distinct fresh unanswered ?_ ?_
    · rw [sent, ← reportRequests]
      exact flushed.reportsFiled
    · rw [sent, ← authRequests]
      exact flushed.authsFiled

/-- A response takes no entry but that of its token. -/
theorem responded_others {s s' : SingletonService} {token : Nat} {response : CallResponse}
    {t : List HostEvent} (responded : SingletonService.Responded s token response t s') {other : Nat}
    (different : other ≠ token) :
    (other ∈ s'.reportRequests ↔ other ∈ s.reportRequests) ∧
      (other ∈ s'.authRequests ↔ other ∈ s.authRequests) := by
  cases responded with
  | report => exact ⟨by simp [SingletonService.handleReportResponse, AList.mem_erase, different], Iff.rfl⟩
  | timeout | refreshed | refused => exact ⟨Iff.rfl, by simp [AList.mem_erase, different]⟩
  | ignored | stray => exact ⟨Iff.rfl, Iff.rfl⟩

theorem responded_subset {s s' : SingletonService} {token : Nat} {response : CallResponse}
    {t : List HostEvent} (responded : SingletonService.Responded s token response t s') (other : Nat) :
    (other ∈ s'.reportRequests → other ∈ s.reportRequests) ∧
      (other ∈ s'.authRequests → other ∈ s.authRequests) := by
  cases responded with
  | report => exact ⟨fun here => (AList.mem_erase.mp here).2, id⟩
  | timeout | refreshed | refused => exact ⟨id, fun here => (AList.mem_erase.mp here).2⟩
  | ignored | stray => exact ⟨id, id⟩

theorem Booked.step {calls : ApiCalls} {sizes : Sizes} {r r' : SingletonRun} (booked : r.Booked)
    (step : Step calls sizes OneResponse r r') : r'.Booked := by
  obtain ⟨occasion, t, s, built, ⟨distinct, fresh, _⟩, path⟩ := step
  rcases callback_ended path with ⟨rfl, received⟩ | ⟨rfl, ended⟩ |
    ⟨token, response, rfl, rfl, silent, _, responded⟩
  · cases received with
    | nothing same none_ silent taken =>
      exact booked.ended distinct fresh rfl rfl (.kept same none_ silent taken) rfl rfl
    | message data later taken sent ended =>
      refine booked.ended distinct fresh rfl sent ended ?_ ?_
      · exact SingletonService.noteCacheKey_reportRequests ..
      · exact SingletonService.noteCacheKey_authRequests ..
  · exact booked.ended distinct fresh rfl rfl ended rfl rfl
  · have reportTokens : (r.after (.response token response) t s []).reportTokens = r.reportTokens := by
      simp [after, silent, tokensOf]
    have authTokens : (r.after (.response token response) t s []).authTokens = r.authTokens := by
      simp [after, silent, tokensOf]
    have others : ∀ other, other ∉ (r.after (.response token response) t s []).answered →
        other ∉ r.answered ∧ other ≠ token := by
      intro other open_
      simpa [after] using open_
    refine ⟨?_, ?_, ?_, ?_, ?_⟩
    · rw [reportTokens, authTokens]
      exact booked.disjoint
    · intro other entered
      rw [reportTokens]
      exact booked.reports other ((responded_subset responded other).1 entered)
    · intro other entered
      rw [authTokens]
      exact booked.auths other ((responded_subset responded other).2 entered)
    · intro other sent open_
      rw [reportTokens] at sent
      obtain ⟨stillOpen, different⟩ := others other open_
      exact (responded_others responded different).1.mpr (booked.dueReport other sent stillOpen)
    · intro other sent open_
      rw [authTokens] at sent
      obtain ⟨stillOpen, different⟩ := others other open_
      exact (responded_others responded different).2.mpr (booked.dueAuth other sent stillOpen)

theorem booked_runs {calls : ApiCalls} {sizes : Sizes} {queueId : Option Nat} {config : DeltaStoreConfig}
    {r : SingletonRun} (runs : Runs calls sizes OneResponse queueId config r) : r.Booked :=
  runs.invariant (booked_begin queueId config) fun _ _ booked step => booked.step step

/-- The response of `token` was handled for what it answers: its entry is
gone, that of a report touched no application and no cache key, and that of
an authorize call no report. -/
structure Treated (r : SingletonRun) (token : Nat) (t : List HostEvent) (s' : SingletonService) :
    Prop where
  gone : token ∉ s'.reportRequests ∧ token ∉ s'.authRequests
  ofReport : token ∈ r.reportTokens →
    (∀ e ∈ t, SingletonService.SparesApplications e.1) ∧ s'.cacheKeys = r.service.cacheKeys
  ofAuth : token ∈ r.authTokens → s'.reportRequests = r.service.reportRequests

/-- The dispatcher looks at the body where the token should decide. -/
structure Suited (r : SingletonRun) (token : Nat) (response : CallResponse) : Prop where
  report : token ∈ r.reportTokens → response.status = some timeoutStatus ∨ response.body = none
  auth : token ∈ r.authTokens → response.status = some timeoutStatus ∨ response.body ≠ none

theorem treated_report_iff {r : SingletonRun} {token : Nat} {response : CallResponse}
    {t : List HostEvent} {s' : SingletonService} (booked : r.Booked) (sent : token ∈ r.reportTokens)
    (open_ : token ∉ r.answered)
    (responded : SingletonService.Responded r.service token response t s') :
    r.Treated token t s' ↔ SingletonService.Bare response := by
  have entered := booked.dueReport token sent open_
  have notAuth := booked.disjoint token sent
  have unentered : token ∉ r.service.authRequests := fun here => notAuth (booked.auths token here)
  constructor
  · intro treated
    cases responded with
    | report bare => exact bare
    | timeout late => exact Or.inl late
    | ignored _ empty => exact Or.inr empty
    | refreshed | refused | stray => exact absurd entered treated.gone.1
  · intro bare
    cases responded with
    | report _ _ spared =>
      refine ⟨⟨?_, unentered⟩, fun _ => ⟨spared, rfl⟩, fun auth => absurd auth notAuth⟩
      exact fun here => (AList.mem_erase.mp here).1 rfl
    | timeout _ unknown => exact absurd entered unknown
    | ignored _ _ unknown => exact absurd entered unknown
    | refreshed body => exact absurd bare body
    | refused body => exact absurd bare body
    | stray body => exact absurd bare body

theorem treated_auth_iff {r : SingletonRun} {token : Nat} {response : CallResponse}
    {t : List HostEvent} {s' : SingletonService} (booked : r.Booked) (sent : token ∈ r.authTokens)
    (open_ : token ∉ r.answered)
    (responded : SingletonService.Responded r.service token response t s') :
    r.Treated token t s' ↔ response.status = some timeoutStatus ∨ response.body ≠ none := by
  have entered := booked.dueAuth token sent open_
  have notReport : token ∉ r.reportTokens := fun report => booked.disjoint token report sent
  have unentered : token ∉ r.service.reportRequests := fun here => notReport (booked.reports token here)
  have erased : token ∉ r.service.authRequests.erase token := fun here => (AList.mem_erase.mp here).1 rfl
  constructor
  · intro treated
    cases responded with
    | report _ known => exact absurd known unentered
    | timeout late => exact Or.inl late
    | ignored => exact absurd entered treated.gone.2
    | refreshed body | refused body | stray body => exact Or.inr fun empty => body (Or.inr empty)
  · intro suited
    cases responded with
    | report _ known => exact absurd known unentered
    | timeout | refreshed | refused =>
      exact ⟨⟨unentered, erased⟩, fun report => absurd report notReport, fun _ => rfl⟩
    | ignored late empty => exact (suited.elim late fun body => body empty).elim
    | stray _ unknown => exact absurd entered (AList.lookup_eq_none.mp unknown)

/-- In all runs, a response is treated for what it answers exactly if the one
for a report comes without a body or with a timeout, and the one for an
authorize call comes with a body or with a timeout. -/
theorem responses_treated_iff {calls : ApiCalls} {sizes : Sizes} {queueId : Option Nat}
    {config : DeltaStoreConfig} {r : SingletonRun} (runs : Runs calls sizes OneResponse queueId config r)
    {token : Nat} (due : r.Due token) {response : CallResponse} {t : List HostEvent}
    {s' : SingletonService}
    (path : Prog.Path (r.service.onHttpCallResponse token response) t (.done s')) :
    r.Treated token t s' ↔ r.Suited token response := by
  have booked := booked_runs runs
  have responded := SingletonService.onHttpCallResponse_responded path
  obtain ⟨report | auth, open_⟩ := due
  · rw [treated_report_iff booked report open_ responded]
    exact ⟨fun bare => ⟨fun _ => bare, fun auth => absurd auth (booked.disjoint token report)⟩,
      fun suited => suited.report report⟩
  · rw [treated_auth_iff booked auth open_ responded]
    exact ⟨fun known => ⟨fun report => absurd auth (booked.disjoint token report), fun _ => known⟩,
      fun suited => suited.auth auth⟩

theorem flushedRun_oneResponse : Runs oneHitCalls wasmSizes OneResponse (some 7) { capacity := 1 } flushedRun := by
  refine .single (.callback .queueReady flushTrace afterHit _ ⟨?_, ?_, ?_⟩ flushTrace_path)
  · decide
  · intro token _
    exact ⟨List.not_mem_nil, List.not_mem_nil⟩
  · intro token response same
    cases same

/-- The answer to a refresh that 3scale refuses. -/
def refusal : CallResponse :=
  ⟨some "403".toList, some (.parsed (.error "application_not_active".toList))⟩

def refusalTrace : List HostEvent :=
  [⟨.setSharedData "s_a".toList none none, .ok ()⟩, ⟨.incrementMetric .cachedApps (-1), ()⟩]

def afterRefusal : SingletonService :=
  { afterHit with
    cacheKeys := afterHit.cacheKeys.erase "s_a".toList
    authRequests := afterHit.authRequests.erase 2 }

theorem refusal_treated : flushedRun.Suited 2 refusal ∧ flushedRun.Treated 2 refusalTrace afterRefusal := by
  have suited : flushedRun.Suited 2 refusal :=
    ⟨fun report => absurd report (by decide), fun _ => Or.inr (by decide)⟩
  have path : Prog.Path (flushedRun.service.onHttpCallResponse 2 refusal) refusalTrace (.done afterRefusal) :=
    .next (.next .start)
  exact ⟨suited, (responses_treated_iff flushedRun_oneResponse ⟨by decide, by decide⟩ path).mpr suited⟩

/-- A report that 3scale refuses with a body keeps its entry for ever. -/
theorem report_not_treated :
    Runs oneHitCalls wasmSizes OneResponse (some 7) { capacity := 1 } flushedRun ∧ flushedRun.Due 1 ∧
      ∃ t s', Prog.Path (flushedRun.service.onHttpCallResponse 1
        ⟨some "403".toList, some (.parsed (.error "service_token_invalid".toList))⟩) t (.done s') ∧
        ¬flushedRun.Treated 1 t s' := by
  refine ⟨flushedRun_oneResponse, ⟨by decide, by decide⟩, [], afterHit, .start, ?_⟩
  intro treated
  exact treated.gone.1 (by decide)

end SingletonRun
end ThreescaleCache
