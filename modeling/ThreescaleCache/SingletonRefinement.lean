import ThreescaleCache.Interaction.Turns
import ThreescaleCache.Reporter
import ThreescaleCache.UsageFlow

namespace ThreescaleCache
open Interaction

/-! The singleton does what a reporter does, in every interleaving. -/

/-- What the singleton is, as a reporter. -/
def SingletonService.reporter (s : SingletonService) : Reporter where
  held := Deltas.held s.deltaStore.deltas
  known := fun key => s.cacheKeys.lookup key
  asked := fun token => s.authRequests.lookup token

/-! What a deed is seen by -/

/-- The call that `perform_http_call` sends a request with. -/
def requestCall (request : HttpRequest) : HttpCall where
  cluster := SingletonService.singletonUpstream.name
  headers :=
    [(":authority".toList, SingletonService.singletonUpstream.url.authority),
      (":scheme".toList, SingletonService.singletonUpstream.url.scheme),
      (":method".toList, request.method),
      (":path".toList, SingletonService.singletonUpstream.callPath request.uri)] ++ request.headers
  body := request.body
  timeout := SingletonService.singletonUpstream.timeout

def SentReport.event (calls : ApiCalls) (sent : SentReport) : Option HostEvent :=
  (calls.buildReport sent.1.2.call).map fun request => ⟨.dispatchHttpCall (requestCall request), sent.2⟩

def AskedRefresh.event (calls : ApiCalls) (refresh : AskedRefresh) : Option HostEvent :=
  match calls.buildAuth (authCall refresh.cacheKey refresh.serviceToken), refresh.reply with
  | some request, some reply => some ⟨.dispatchHttpCall (requestCall request), reply⟩
  | _, _ => none

/-- The calls that go out. -/
def Deed.events (calls : ApiCalls) : Deed → List HostEvent
  | .flush reports refreshes =>
    reports.filterMap (SentReport.event calls) ++ refreshes.filterMap (AskedRefresh.event calls)
  | _ => []

def Deed.taken : Deed → List ThreescaleData
  | .use data => [data]
  | _ => []

def Deed.built : Deed → List BuiltReport
  | .flush reports _ => reports.map Prod.fst
  | _ => []

def callsOut (t : List HostEvent) : List HostEvent :=
  t.filter fun e => match e with
    | ⟨.dispatchHttpCall _, _⟩ => true
    | _ => false

theorem callsOut_append (t t' : List HostEvent) : callsOut (t ++ t') = callsOut t ++ callsOut t' :=
  List.filter_append ..

/-- A reporter gets from `r` to `r'` by deeds that take, build and send this. -/
def Performs (calls : ApiCalls) (r : Reporter) (taken : List ThreescaleData) (built : List BuiltReport)
    (out : List HostEvent) (r' : Reporter) : Prop :=
  ∃ deeds : List (Deed × Reporter), Applied (Reporter.Does calls) r deeds r' ∧
    deeds.flatMap (fun deed => deed.1.taken) = taken ∧ deeds.flatMap (fun deed => deed.1.built) = built ∧
    deeds.flatMap (fun deed => deed.1.events calls) = out

section
variable {calls : ApiCalls} {r r' r'' : Reporter} {taken taken' : List ThreescaleData}
  {built built' : List BuiltReport} {out out' : List HostEvent}

theorem Performs.nothing (calls : ApiCalls) (r : Reporter) : Performs calls r [] [] [] r :=
  ⟨[], .start, rfl, rfl, rfl⟩

theorem Performs.one {deed : Deed} (does : Reporter.Does calls deed r r') :
    Performs calls r deed.taken deed.built (deed.events calls) r' :=
  ⟨[(deed, r')], Applied.next .start does, List.append_nil _, List.append_nil _, List.append_nil _⟩

theorem Performs.trans (first : Performs calls r taken built out r')
    (later : Performs calls r' taken' built' out' r'') :
    Performs calls r (taken ++ taken') (built ++ built') (out ++ out') r'' := by
  obtain ⟨deeds, applied, rfl, rfl, rfl⟩ := first
  obtain ⟨deeds', applied', rfl, rfl, rfl⟩ := later
  exact ⟨deeds ++ deeds', applied.trans applied', List.flatMap_append, List.flatMap_append, List.flatMap_append⟩

end

section
variable {κ V : Type} [DecidableEq κ] (m : AList fun _ : κ => V) (key : κ)

theorem lookup_insert_eq (value : V) :
    (fun other => (m.insert key value).lookup other) =
      Function.update (fun other => m.lookup other) key (some value) := by
  funext other
  by_cases same : other = key
  · subst same
    rw [AList.lookup_insert, Function.update_self]
  · rw [AList.lookup_insert_ne same, Function.update_of_ne same]

theorem lookup_erase_eq :
    (fun other => (m.erase key).lookup other) = Function.update (fun other => m.lookup other) key none := by
  funext other
  by_cases same : other = key
  · subst same
    rw [AList.lookup_erase, Function.update_self]
  · rw [AList.lookup_erase_ne same, Function.update_of_ne same]

end

namespace SingletonService
variable {calls : ApiCalls} {sizes : Sizes} {s s' : SingletonService} {t : List HostEvent}
  {built : List BuiltReport}

/-! The flush -/

theorem performHttpCall_event {request : HttpRequest} {reply : Except Status Nat}
    (path : Prog.Path (performHttpCall request) t (.done reply)) :
    t = [⟨.dispatchHttpCall (requestCall request), reply⟩] := by
  cases path with
  | next rest =>
    cases rest
    rfl

/-- The reports with their replies, as they were sent. -/
structure SentAs (calls : ApiCalls) (reports : List SentReport) (t : List HostEvent) (built : List BuiltReport) :
    Prop where
  built : reports.map Prod.fst = built
  events : t = reports.filterMap (SentReport.event calls)
  builds : ∀ sent ∈ reports, (calls.buildReport sent.1.2.call).isSome

theorem SentAs.cons {reports : List SentReport} {b : BuiltReport} {request : HttpRequest}
    {reply : Except Status Nat} (rest : SentAs calls reports t built)
    (builds : calls.buildReport b.2.call = some request) :
    SentAs calls ((b, reply) :: reports) (⟨.dispatchHttpCall (requestCall request), reply⟩ :: t) (b :: built) where
  built := congrArg (b :: ·) rest.built
  events := by
    have event : SentReport.event calls (b, reply) = some ⟨.dispatchHttpCall (requestCall request), reply⟩ := by
      simp only [SentReport.event, builds, Option.map_some]
    rw [List.filterMap_cons_some event, ← rest.events]
  builds := by
    intro sent member
    rcases List.mem_cons.mp member with rfl | old
    · rw [builds]
      rfl
    · exact rest.builds sent old

theorem sendReports_events {entries : List (Sigma fun _ : Str => AppMap Metrics)}
    (path : Prog.Path (sendReports calls entries s) t (.done (s', built))) :
    ∃ reports, SentAs calls reports t built := by
  induction entries generalizing s t built with
  | nil =>
    cases path
    exact ⟨[], rfl, rfl, by rintro _ ⟨⟩⟩
  | cons entry rest ih =>
    obtain ⟨key, apps⟩ := entry
    unfold sendReports at path
    cases formed : report key apps with
    | none =>
      simp only [formed] at path
      cases path
    | some b =>
      cases request : calls.buildReport b.call with
      | none =>
        simp only [formed, request] at path
        cases path
      | some req =>
        simp only [formed, request] at path
        obtain ⟨t₁, t₂, reply, rfl, first, later⟩ := Prog.path_bind_done path
        cases performHttpCall_event first
        cases reply with
        | ok | error =>
          obtain ⟨t₃, t₄, ⟨s₁, more⟩, rfl, inner, last⟩ := Prog.path_bind_done later
          cases last
          obtain ⟨reports, sent⟩ := ih inner
          rw [List.append_nil]
          exact ⟨_, sent.cons request⟩

/-- The refreshes with their replies, as they were asked for. -/
structure AskedAs (calls : ApiCalls) (refreshes : List AskedRefresh) (t : List HostEvent)
    (entries : List (Sigma fun _ : Str => CacheKey × ServiceToken)) : Prop where
  entries : refreshes.map (fun refresh => ⟨refresh.key, refresh.cacheKey, refresh.serviceToken⟩) = entries
  events : t = refreshes.filterMap (AskedRefresh.event calls)
  replied : ∀ refresh ∈ refreshes, refresh.reply.isSome =
    (calls.buildAuth (authCall refresh.cacheKey refresh.serviceToken)).isSome

theorem AskedAs.cons {refreshes : List AskedRefresh} {entries : List (Sigma fun _ : Str => CacheKey × ServiceToken)}
    (rest : AskedAs calls refreshes t entries) (refresh : AskedRefresh)
    (replied : refresh.reply.isSome = (calls.buildAuth (authCall refresh.cacheKey refresh.serviceToken)).isSome) :
    AskedAs calls (refresh :: refreshes) ((AskedRefresh.event calls refresh).toList ++ t)
      (⟨refresh.key, refresh.cacheKey, refresh.serviceToken⟩ :: entries) where
  entries := congrArg (_ :: ·) rest.entries
  events := by
    cases event : AskedRefresh.event calls refresh with
    | none => rw [List.filterMap_cons_none event, ← rest.events, Option.toList_none, List.nil_append]
    | some e =>
      rw [List.filterMap_cons_some event, ← rest.events, Option.toList_some, List.singleton_append]
  replied := by
    intro other member
    rcases List.mem_cons.mp member with rfl | old
    · exact replied
    · exact rest.replied other old

theorem sendAuthRequests_events {entries : List (Sigma fun _ : Str => CacheKey × ServiceToken)}
    (path : Prog.Path (sendAuthRequests calls entries s) t (.done s')) :
    ∃ refreshes, AskedAs calls refreshes t entries ∧
      s'.reporter.asked = refreshes.foldl Reporter.noteAsked s.reporter.asked := by
  induction entries generalizing s t with
  | nil =>
    cases path
    exact ⟨[], ⟨rfl, rfl, by rintro _ ⟨⟩⟩, rfl⟩
  | cons entry rest ih =>
    obtain ⟨key, cacheKey, serviceToken⟩ := entry
    unfold sendAuthRequests at path
    cases request : calls.buildAuth (authCall cacheKey serviceToken) with
    | none =>
      simp only [request] at path
      obtain ⟨refreshes, sent, asked⟩ := ih path
      have more := sent.cons ⟨key, cacheKey, serviceToken, none⟩ (by rw [request]; rfl)
      simp only [AskedRefresh.event, request, Option.toList_none, List.nil_append] at more
      exact ⟨_, more, asked⟩
    | some req =>
      simp only [request] at path
      obtain ⟨t₁, t₂, reply, rfl, first, later⟩ := Prog.path_bind_done path
      cases performHttpCall_event first
      cases reply with
      | ok token =>
        obtain ⟨refreshes, sent, asked⟩ := ih later
        have more := sent.cons ⟨key, cacheKey, serviceToken, some (.ok token)⟩ (by rw [request]; rfl)
        simp only [AskedRefresh.event, request, Option.toList_some] at more
        refine ⟨_, more, asked.trans ?_⟩
        exact congrArg (refreshes.foldl Reporter.noteAsked) (lookup_insert_eq _ token cacheKey)
      | error e =>
        obtain ⟨refreshes, sent, asked⟩ := ih later
        have more := sent.cons ⟨key, cacheKey, serviceToken, some (.error e)⟩ (by rw [request]; rfl)
        simp only [AskedRefresh.event, request, Option.toList_some] at more
        exact ⟨_, more, asked⟩

/-- A flush reports all that is held, and asks for all that is known. -/
theorem flushLocalCache_does (path : Prog.Path (s.flushLocalCache calls) t (.done (s', built))) :
    ∃ deed, Reporter.Does calls deed s.reporter s'.reporter ∧ deed.taken = [] ∧ deed.built = built ∧
      deed.events calls = t := by
  have flushed := flushLocalCache_flushed path
  obtain ⟨t₁, t₂, ⟨s₁, more⟩, rfl, first, later⟩ := Prog.path_bind_done path
  obtain ⟨t₃, t₄, s₂, rfl, second, last⟩ := Prog.path_bind_done later
  cases last
  have kept := (sendReports_sent first).kept
  obtain ⟨reports, sent⟩ := sendReports_events first
  obtain ⟨refreshes, asking, asked⟩ := sendAuthRequests_events second
  have lines : reports.flatMap (fun sent => sent.1.lines) = built.flatMap BuiltReport.lines := by
    rw [← sent.built, List.flatMap_map]
  have reported : ReportsHeld calls s.reporter.held reports := by
    refine ⟨fun a => ?_, ?_, sent.builds⟩
    · rw [lines]
      exact (flushed_amount flushed a).1
    · rw [lines]
      exact ((reports_lines flushed.reports).map Prod.fst).nodup_iff.mpr (lines_nodup s.deltaStore.deltas)
  have entries : refreshes.map (fun refresh =>
      (⟨refresh.key, refresh.cacheKey, refresh.serviceToken⟩ : Sigma fun _ : Str => CacheKey × ServiceToken)) =
      s.cacheKeys.entries := by
    rw [asking.entries, kept]
    rfl
  have refreshed : RefreshesKnown calls s.reporter.known refreshes := by
    refine ⟨fun key cacheKey serviceToken => ?_, ?_, asking.replied⟩
    · have member : (⟨key, cacheKey, serviceToken⟩ : Sigma fun _ : Str => CacheKey × ServiceToken) ∈
          s.cacheKeys.entries ↔ _ := AList.mem_lookup_iff.symm
      refine Iff.trans member.symm ?_
      rw [← entries, List.mem_map]
      constructor
      · rintro ⟨⟨_, _, _, reply⟩, here, same⟩
        cases same
        exact ⟨reply, here⟩
      · rintro ⟨reply, here⟩
        exact ⟨_, here, rfl⟩
    · have nodup := s.cacheKeys.nodupKeys
      rw [List.NodupKeys, List.keys, ← entries, List.map_map] at nodup
      exact nodup
  have does := Reporter.Does.flush s.reporter reports refreshes reported refreshed
  have ends : s.reporter.flush refreshes = s'.reporter := by
    have held : (s.reporter.flush refreshes).held = s'.reporter.held := by
      funext a
      exact (flushed_amount flushed a).2.symm
    have known : (s.reporter.flush refreshes).known = s'.reporter.known := by
      funext key
      exact congrArg (AList.lookup key) flushed.cacheKeys.symm
    have due : (s.reporter.flush refreshes).asked = s'.reporter.asked := by
      rw [asked, kept]
      rfl
    exact congr (congr (congrArg Reporter.mk held) known) due
  rw [ends] at does
  refine ⟨_, does, rfl, sent.built, ?_⟩
  rw [List.append_nil, sent.events, asking.events]
  rfl

/-! The callbacks -/

theorem filed_reporter (sizes : Sizes) (s : SingletonService) (data : ThreescaleData) :
    (s.filed sizes data).reporter = s.reporter.use data := by
  have held : (s.filed sizes data).reporter.held = (s.reporter.use data).held := by
    funext a
    show Deltas.held (s.filed sizes data).deltaStore.deltas a = _
    rw [filed_deltas]
    exact fileDelta_held sizes s.deltaStore.deltas data a
  have known : (s.filed sizes data).reporter.known = (s.reporter.use data).known := by
    show (fun key => (s.noteCacheKey data).cacheKeys.lookup key) = _
    unfold noteCacheKey Reporter.use
    dsimp only
    cases before : s.cacheKeys.lookup data.usedKey.asString with
    | some entry =>
      have noted : s.reporter.known data.usedKey.asString = some entry := before
      rw [noted]
      unfold ThreescaleData.usedKey at before
      rw [before]
      rfl
    | none =>
      have noted : s.reporter.known data.usedKey.asString = none := before
      rw [noted]
      unfold ThreescaleData.usedKey at before
      rw [before]
      exact lookup_insert_eq s.cacheKeys data.usedKey.asString (data.usedKey, data.serviceToken)
  have asked : (s.filed sizes data).reporter.asked = (s.reporter.use data).asked := by
    funext token
    exact congrArg (AList.lookup token) (noteCacheKey_authRequests s data)
  exact congr (congr (congrArg Reporter.mk held) known) asked

theorem callsOut_inward (inward : ∀ e ∈ t, Inward e.1) : callsOut t = [] := by
  refine List.filter_eq_nil_iff.mpr fun e member => ?_
  obtain ⟨c, reply⟩ := e
  cases c with
  | dispatchHttpCall call => exact absurd (inward _ member) id
  | _ => exact Bool.false_ne_true

theorem callsOut_events (calls : ApiCalls) (deed : Deed) : callsOut (deed.events calls) = deed.events calls := by
  refine List.filter_eq_self.mpr fun e member => ?_
  cases deed with
  | flush reports refreshes =>
    rcases List.mem_append.mp member with sent | asked
    · obtain ⟨report, _, event⟩ := List.mem_filterMap.mp sent
      obtain ⟨request, _, rfl⟩ := Option.map_eq_some_iff.mp event
      rfl
    · obtain ⟨refresh, _, event⟩ := List.mem_filterMap.mp asked
      unfold AskedRefresh.event at event
      split at event
      · cases event
        rfl
      · cases event
  | use | answered | refused => cases member

theorem flushLocalCache_performs (path : Prog.Path (s.flushLocalCache calls) t (.done (s', built))) :
    Performs calls s.reporter [] built (callsOut t) s'.reporter := by
  obtain ⟨deed, does, taken, rfl, rfl⟩ := flushLocalCache_does path
  rw [callsOut_events, ← taken]
  exact .one does

theorem recordUsage_performs {data : ThreescaleData}
    (path : Prog.Path (s.recordUsage calls sizes data) t (.done (s', built))) :
    Performs calls s.reporter [data] built (callsOut t) s'.reporter := by
  have used : Performs calls s.reporter [data] [] [] (s.filed sizes data).reporter := by
    rw [filed_reporter]
    exact .one (.use s.reporter data)
  unfold recordUsage at path
  dsimp only at path
  rw [noteCacheKey_deltaStore] at path
  split at path
  · exact used.trans (flushLocalCache_performs path)
  · cases path
    exact used

theorem onQueueReady_performs (path : Prog.Path (s.onQueueReady calls sizes) t (.done (s', built))) :
    Performs calls s.reporter (dequeued t) built (callsOut t) s'.reporter := by
  unfold onQueueReady at path
  cases queue : s.queueId with
  | none =>
    simp only [queue] at path
    cases path
  | some queueId =>
    simp only [queue] at path
    obtain ⟨t₁, t₂, entry, rfl, first, later⟩ := Prog.path_bind_done path
    cases first with
    | next rest =>
      cases rest
      match entry, later with
      | .error e, later =>
        cases later
        exact .nothing calls _
      | .ok none, later =>
        cases later
        exact .nothing calls _
      | .ok (some (.waiterAction _)), later => cases later
      | .ok (some (.message message)), later =>
        have silent : ∀ {u}, Prog.Path (s.recordUsage calls sizes message.data) u (.done (s', built)) →
            dequeued u = [] := fun recorded => (recordUsage_ended recorded).1.nothingTaken
        dsimp only at later
        split at later
        · obtain ⟨t₃, t₄, result, rfl, update, recorded⟩ := Prog.path_bind_done later
          have inward := ((only_updateApplicationCache message.data message.reqTime).mono
            fun _ => inward_checkCall).path update
          cases result with
          | error e => cases recorded
          | ok =>
            have taken : dequeued (⟨.dequeueSharedQueue queueId, .ok (some (.message message))⟩ :: (t₃ ++ t₄)) =
                [message.data] := by
              have none_ : dequeued (t₃ ++ t₄) = [] := by
                rw [dequeued_append, dequeued_inward inward, silent recorded, List.append_nil]
              exact congrArg (message.data :: ·) none_
            have out : callsOut (⟨.dequeueSharedQueue queueId, .ok (some (.message message))⟩ :: (t₃ ++ t₄)) =
                callsOut t₄ := by
              have own : callsOut (t₃ ++ t₄) = callsOut t₄ := by
                rw [callsOut_append, callsOut_inward inward, List.nil_append]
              exact own
            exact taken ▸ out ▸ recordUsage_performs recorded
        · have taken : dequeued (⟨.dequeueSharedQueue queueId, .ok (some (.message message))⟩ :: t₂) =
              [message.data] := congrArg (message.data :: ·) (silent later)
          show Performs calls _ _ built (callsOut t₂) _
          exact taken ▸ recordUsage_performs later

theorem onTick_performs (path : Prog.Path (s.onTick calls) t (.done (s', built))) :
    Performs calls s.reporter (dequeued t) built (callsOut t) s'.reporter := by
  rw [(onTick_ended path).nothingTaken]
  unfold onTick at path
  split at path
  · exact flushLocalCache_performs path
  · cases path
    exact .nothing calls _

theorem onHttpCallResponse_performs {token : Nat} {response : CallResponse}
    (path : Prog.Path (s.onHttpCallResponse token response) t (.done s')) :
    Performs calls s.reporter [] [] [] s'.reporter := by
  have answered : Performs calls s.reporter [] [] []
      ({ s with authRequests := s.authRequests.erase token } : SingletonService).reporter := by
    have ends : ({ s with authRequests := s.authRequests.erase token } : SingletonService).reporter =
        s.reporter.answer token :=
      congrArg (Reporter.mk s.reporter.held s.reporter.known) (lookup_erase_eq s.authRequests token)
    rw [ends]
    exact .one (.answered s.reporter token)
  cases onHttpCallResponse_responded path with
  | report | ignored | stray => exact .nothing calls _
  | timeout | refreshed => exact answered
  | refused _ cacheKey due =>
    have ends : ({ s with
          cacheKeys := s.cacheKeys.erase cacheKey.asString
          authRequests := s.authRequests.erase token } : SingletonService).reporter =
        (s.reporter.forget cacheKey).answer token :=
      congr (congrArg (Reporter.mk s.reporter.held) (lookup_erase_eq s.cacheKeys cacheKey.asString))
        (lookup_erase_eq s.authRequests token)
    rw [ends]
    exact .one (.refused s.reporter token cacheKey due)

theorem callback_performs {occasion : Occasion}
    (path : Prog.Path (occasion.callback calls sizes s) t (.done (s', built))) :
    Performs calls s.reporter (dequeued t) built (callsOut t) s'.reporter := by
  cases occasion with
  | queueReady => exact onQueueReady_performs path
  | tick => exact onTick_performs path
  | response token response =>
    obtain ⟨t₁, t₂, s₁, rfl, responded, last⟩ := Prog.path_bind_done path
    cases last
    have inward := ((only_onHttpCallResponse s token response).mono fun _ => inward_refreshCall).path responded
    rw [List.append_nil, dequeued_inward inward, callsOut_inward inward]
    exact onHttpCallResponse_performs responded

end SingletonService

/-! Every interleaving -/

variable {ι : Type} [DecidableEq ι] {calls : ApiCalls} {sizes : Sizes} {queueId : Nat}
  {config : DeltaStoreConfig}

/-- The singleton is given its callbacks. -/
def GivenWork (calls : ApiCalls) (sizes : Sizes) (outcome : Outcome) (p : HostProg Outcome) : Prop :=
  ∃ s built occasion, outcome = some (s, built) ∧ p = SingletonService.work calls sizes built s occasion

theorem turns_performs {s₀ : SingletonService} {t : List HostEvent} {outcome : Outcome}
    (turns : Turns (GivenWork calls sizes) (some (s₀, [])) t outcome) :
    ∃ s built, outcome = some (s, built) ∧
      Performs calls s₀.reporter (dequeued t) built (callsOut t) s.reporter := by
  induction turns with
  | start => exact ⟨s₀, [], rfl, .nothing calls _⟩
  | @next t u outcome outcome' p _ given path ih =>
    obtain ⟨s, built, rfl, performs⟩ := ih
    obtain ⟨s', built', occasion, same, rfl⟩ := given
    cases same
    obtain ⟨u₁, u₂, ⟨s', more⟩, rfl, callback, last⟩ := Prog.path_bind_done path
    cases last
    refine ⟨s', built ++ more, rfl, ?_⟩
    rw [List.append_nil, dequeued_append, callsOut_append]
    exact performs.trans (SingletonService.callback_performs callback)

/-- A reporter could have done the same: it took the messages that the
singleton took, built its reports, made its calls, and is left as it is. With
each flush, refreshes of exactly the applications in use are asked for, each once. -/
structure WorksAsReporter (calls : ApiCalls) (s : UsageConfig ι) (service : SingletonService)
    (built : List BuiltReport) (deeds : List (Deed × Reporter)) : Prop where
  applied : Applied (Reporter.Does calls) .start deeds service.reporter
  taken : deeds.flatMap (fun deed => deed.1.taken) = dequeued (callsOf none s.trace)
  built : deeds.flatMap (fun deed => deed.1.built) = built
  out : deeds.flatMap (fun deed => deed.1.events calls) = callsOut (callsOf none s.trace)
  refreshed : ∀ before reports refreshes after,
    deeds.map Prod.fst = before ++ .flush reports refreshes :: after →
      (refreshes.map AskedRefresh.key).Nodup ∧ ∀ key, key ∈ refreshes.map AskedRefresh.key ↔ InUse key before

/-- In every interleaving of the filters and the singleton, the singleton
refines the reporter. -/
theorem singleton_refinesReporter {h : Host} {s : UsageConfig ι} {service : SingletonService}
    {built : List BuiltReport}
    (reach : Reach (usageParties ι calls sizes queueId) anyStep (usageStart ι queueId config h) s)
    (idle : s.procs none = .done (some (service, built))) :
    ∃ deeds, WorksAsReporter calls s service built deeds := by
  have turns : Turns (GivenWork calls sizes) (some (.start (some queueId) config, [])) (callsOf none s.trace)
      (some (service, built)) := by
    refine reach.turns_idle rfl rfl (fun outcome t p given => ?_) idle
    match outcome, given with
    | some (s, built), ⟨occasion, same⟩ => exact ⟨s, built, occasion, rfl, same⟩
  obtain ⟨_, _, same, deeds, applied, taken, built, out⟩ := turns_performs turns
  cases same
  have start : (SingletonService.start (some queueId) config).reporter = .start := by
    have held : (SingletonService.start (some queueId) config).reporter.held = fun _ => 0 := by
      funext a
      exact Deltas.held_absent (AList.lookup_empty a.1)
    exact congrArg (fun held => Reporter.mk held _ _) held
  rw [start] at applied
  exact ⟨deeds, applied, taken, built, out, fun _ _ _ _ => Reporter.refreshes_inUse applied⟩

/-- The singleton has flushed the usage that a filter has sent. -/
def hitFlushed : UsageConfig Unit :=
  (((usageStart Unit 7 { capacity := 1 } (cachedHost (cachedWith ∅))).resumed (some ())
    ((FilterTask.requestHeaders hitLib 3 (hitFilter 1) hitHeaders).program >>= fun _ => pure none)).resumed none
      ((SingletonService.start (some 7) { capacity := 1 }).work oneHitCalls wasmSizes [] .queueReady)).play
      (usageParties Unit oneHitCalls wasmSizes 7) (List.replicate 13 (some ()) ++ List.replicate 3 none)

theorem singleton_refinesReporter_hit :
    ∃ service built deeds, hitFlushed.procs none = .done (some (service, built)) ∧
      WorksAsReporter oneHitCalls hitFlushed service built deeds := by
  have reach : Reach (usageParties Unit oneHitCalls wasmSizes 7) anyStep
      (usageStart Unit 7 { capacity := 1 } (cachedHost (cachedWith ∅))) hitFlushed := by
    refine Reach.play _ (.next (.next .start (.resume rfl ?_) trivial) (.resume rfl ?_) trivial)
    · exact ⟨.requestHeaders hitLib 3 (hitFilter 1) hitHeaders, trivial, rfl⟩
    · exact ⟨.queueReady, rfl⟩
  obtain ⟨deeds, works⟩ := singleton_refinesReporter reach rfl
  exact ⟨_, _, deeds, rfl, works⟩

end ThreescaleCache
