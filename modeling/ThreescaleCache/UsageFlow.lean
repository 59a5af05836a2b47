import ThreescaleCache.Conservation
import ThreescaleCache.FilterTasks
import ThreescaleCache.Interaction.Folding
import ThreescaleCache.Interaction.Solo

namespace ThreescaleCache
open Interaction

/-! Usage on its way from the filters to 3scale: through the queue of the
singleton, its delta store and its reports. -/

/-- The singleton between two callbacks, with all reports that it has built;
the filters return nothing. -/
abbrev Outcome := Option (SingletonService × List BuiltReport)

/-- A callback of the singleton. -/
def SingletonService.work (calls : ApiCalls) (sizes : Sizes) (built : List BuiltReport) (s : SingletonService)
    (occasion : Occasion) : HostProg Outcome := do
  let (s, more) ← occasion.callback calls sizes s
  pure (some (s, built ++ more))

variable {ι : Type} [DecidableEq ι] {calls : ApiCalls} {sizes : Sizes} {queueId : Nat}

/-- The singleton and the contexts and roots of the filters, each with one
callback after the other. -/
def usageParties (ι : Type) (calls : ApiCalls) (sizes : Sizes) (queueId : Nat) :
    Parties (Option ι) HostCall HostCall.Reply Host Outcome where
  exec := fun _ => Host.exec
  env := Host.Env
  resume := fun party outcome _ p => match party, outcome with
    | none, some (s, built) => ∃ occasion, p = s.work calls sizes built occasion
    | none, none => False
    | some _, _ => ∃ task : FilterTask, task.Spares queueId ∧ p = task.program >>= fun _ => pure none

abbrev UsageConfig (ι : Type) := Config (Option ι) HostCall HostCall.Reply Host Outcome

def usageStart (ι : Type) (queueId : Nat) (config : DeltaStoreConfig) (h : Host) : UsageConfig ι where
  shared := h
  procs := fun party => match party with
    | none => .done (some (.start (some queueId) config, []))
    | some _ => .done none
  trace := []

/-! What a trace says about the queue -/

def messageOf : QueueItem → Option ThreescaleData
  | .message message => some message.data
  | .waiterAction _ => none

/-- The items that are put into the queue, in their order. -/
def sentBy (queueId : Nat) : HostEvent → List QueueItem
  | ⟨.enqueueSharedQueue other item, .ok ()⟩ => if other = queueId then [item] else []
  | _ => []

def takenBy (queueId : Nat) : HostEvent → List QueueItem
  | ⟨.dequeueSharedQueue other, .ok (some item)⟩ => if other = queueId then [item] else []
  | _ => []

def sent (queueId : Nat) (t : List (Option ι × HostEvent)) : List QueueItem :=
  t.flatMap fun e => sentBy queueId e.2

/-- What the singleton has taken from the queue. -/
def taken (queueId : Nat) (t : List (Option ι × HostEvent)) : List QueueItem :=
  t.flatMap fun e => if e.1 = none then takenBy queueId e.2 else []

/-- The hits for an account in these items. -/
def hitsIn (items : List QueueItem) (a : Account) : UInt64 :=
  ((items.filterMap messageOf).map (hits · a)).sum

theorem hitsIn_append (items more : List QueueItem) (a : Account) :
    hitsIn (items ++ more) a = hitsIn items a + hitsIn more a := by
  simp only [hitsIn, List.filterMap_append, List.map_append, List.sum_append]

/-- What the singleton has in its store or has reported. -/
def accountedBy (s : SingletonService) (built : List BuiltReport) (a : Account) : UInt64 :=
  Deltas.held s.deltaStore.deltas a + Ledger.amount a (built.flatMap BuiltReport.lines)

/-- No usage is lost or counted twice on the way: the singleton has taken what
was sent, in that order, up to what the queue still holds, and between two
callbacks everything that it has taken is in its store or in its reports. -/
structure UsageFlow (queueId : Nat) (s : UsageConfig ι) : Prop where
  order : sent queueId s.trace = taken queueId s.trace ++ s.shared.queues queueId
  balance : ∀ service built, s.procs none = .done (some (service, built)) → ∀ a,
    hitsIn (sent queueId s.trace) a = hitsIn (s.shared.queues queueId) a + accountedBy service built a

/-! The protocol of the parties -/

/-- The hits that a party is to account for, after one more call. -/
def owing (queueId : Nat) (owes : Account → UInt64) (e : HostEvent) : Account → UInt64 :=
  fun a => owes a + hitsIn (takenBy queueId e) a

theorem foldl_owing (queueId : Nat) (owes : Account → UInt64) (t : List HostEvent) (a : Account) :
    t.foldl (owing queueId) owes a = owes a + hitsIn (t.flatMap (takenBy queueId)) a := by
  induction t generalizing owes with
  | nil => exact (add_zero _).symm
  | cons e t ih =>
    rw [List.foldl_cons, ih, List.flatMap_cons, hitsIn_append]
    exact add_assoc ..

/-- A party takes from the one queue, or from all others. -/
noncomputable def accounting (queueId : Nat) (singleton : Bool) : HostProtocol (Account → UInt64) :=
  folding (owing queueId) (fun _ => True) fun _ c =>
    if singleton then ∀ other, c = .dequeueSharedQueue other → other = queueId else Untaken queueId c

/-! The calls of the singleton -/

/-- Calls that take nothing from any queue. -/
def Takeless (c : HostCall) : Prop := ∀ queueId, c ≠ .dequeueSharedQueue queueId

theorem takeless_inward {c : HostCall} (inward : Inward c) : Takeless c := by
  rintro _ rfl
  exact inward

/-- Calls that take at most from this queue. -/
def TakesFrom (queueId : Nat) (c : HostCall) : Prop := ∀ other, c = .dequeueSharedQueue other → other = queueId

theorem takesFrom_takeless {c : HostCall} (takeless : Takeless c) : TakesFrom queueId c :=
  fun other same => absurd same (takeless other)

namespace SingletonService

theorem takeless_flushCall {c : HostCall} (flush : FlushCall c) : Takeless c := by
  cases flush
  rintro _ ⟨⟩

/-- The callback for the queue takes one item, and nothing afterwards. -/
theorem onQueueReady_takes (calls : ApiCalls) (sizes : Sizes) {s : SingletonService}
    (registered : s.queueId = some queueId) :
    ∃ k, s.onQueueReady calls sizes = .call (.dequeueSharedQueue queueId) k ∧ ∀ r, (k r).Only Takeless := by
  unfold onQueueReady
  rw [registered]
  refine ⟨_, rfl, fun reply => ?_⟩
  match reply with
  | .error _ | .ok none | .ok (some (.waiterAction _)) => trivial
  | .ok (some (.message message)) =>
    show Prog.Only _ (if message.updateCacheFromSingleton then _ else _)
    split
    · refine Prog.only_bind ((only_updateApplicationCache message.data message.reqTime).mono
        fun _ check => takeless_inward (inward_checkCall check)) fun result => ?_
      cases result with
      | ok => exact (only_recordUsage calls sizes s message.data).mono fun _ => takeless_flushCall
      | error e => trivial
    · exact (only_recordUsage calls sizes s message.data).mono fun _ => takeless_flushCall

theorem takesFrom_callback (calls : ApiCalls) (sizes : Sizes) {s : SingletonService}
    (registered : s.queueId = some queueId) (occasion : Occasion) :
    (occasion.callback calls sizes s).Only (TakesFrom queueId) := by
  cases occasion with
  | queueReady =>
    obtain ⟨k, same, rest⟩ := onQueueReady_takes calls sizes registered
    show Prog.Only _ (s.onQueueReady calls sizes)
    rw [same]
    exact ⟨by rintro _ ⟨⟩; rfl, fun r => (rest r).mono fun _ => takesFrom_takeless⟩
  | tick => exact (only_onTick calls s).mono fun _ flush => takesFrom_takeless (takeless_flushCall flush)
  | response token reply =>
    refine Prog.only_bind ((only_onHttpCallResponse s token reply).mono fun _ refresh =>
      takesFrom_takeless (takeless_inward (inward_refreshCall refresh))) fun _ => trivial

/-- What lets the callbacks go on: the queue, and separators in the keys of the deltas. -/
structure Serviceable (queueId : Nat) (config : DeltaStoreConfig) (s : SingletonService) : Prop where
  registered : s.queueId = some queueId
  separated : Separated s.deltaStore.deltas
  configured : s.deltaStore.config = config

theorem Serviceable.ended {config : DeltaStoreConfig} {s s' : SingletonService} {t : List HostEvent}
    {built : List BuiltReport} (serviceable : Serviceable queueId config s) (ended : Ended s t s' built) :
    Serviceable queueId config s' where
  registered := (ended_queueId ended).trans serviceable.registered
  separated := ended_separated ended serviceable.separated
  configured := by
    cases ended with
    | kept same => rw [same, serviceable.configured]
    | flushed flushed => rw [flushed.emptied, serviceable.configured]

theorem Serviceable.filed {config : DeltaStoreConfig} {s : SingletonService}
    (serviceable : Serviceable queueId config s) (sizes : Sizes) (data : ThreescaleData) :
    Serviceable queueId config (s.filed sizes data) where
  registered := (noteCacheKey_queueId s data).trans serviceable.registered
  separated := by
    rw [filed_deltas]
    exact separated_fileDelta serviceable.separated
  configured := by
    refine Eq.trans ?_ serviceable.configured
    show (s.deltaStore.updateDeltaStore sizes data).1.config = _
    unfold DeltaStore.updateDeltaStore
    dsimp only
    split <;> rfl

theorem Serviceable.callback {config : DeltaStoreConfig} {s s' : SingletonService} {t : List HostEvent}
    {built : List BuiltReport} {occasion : Occasion} (serviceable : Serviceable queueId config s)
    (path : Prog.Path (occasion.callback calls sizes s) t (.done (s', built))) :
    Serviceable queueId config s' := by
  rcases SingletonRun.callback_ended (r := { SingletonRun.begin none {} with service := s }) path with
    ⟨_, received⟩ | ⟨_, ended⟩ | ⟨token, response, _, _, _, _, responded⟩
  · cases received with
    | nothing same => exact same ▸ serviceable
    | message data later _ _ ended => exact (serviceable.filed sizes data).ended ended
  · exact serviceable.ended ended
  · cases responded <;> exact ⟨serviceable.registered, serviceable.separated, serviceable.configured⟩

end SingletonService

/-- What the calls of the singleton have taken is what its history notes. -/
theorem dequeued_taken {t : List HostEvent} (own : ∀ e ∈ t, TakesFrom queueId e.1) :
    (t.flatMap (takenBy queueId)).filterMap messageOf = dequeued t := by
  induction t with
  | nil => rfl
  | cons e t ih =>
    have rest := ih fun e member => own e (List.mem_cons_of_mem _ member)
    have one : (takenBy queueId e).filterMap messageOf = dequeued [e] := by
      have here := own e List.mem_cons_self
      unfold takenBy
      split
      · rename_i other item
        rw [if_pos (here other rfl)]
        cases item <;> rfl
      · rename_i noItem
        obtain ⟨c, r⟩ := e
        cases c with
        | dequeueSharedQueue other =>
          match r with
          | .ok (some item) => exact absurd rfl (noItem other item)
          | .ok none | .error _ => rfl
        | _ => rfl
    rw [List.flatMap_cons, List.filterMap_append, one, rest]
    exact (dequeued_append [e] t).symm

/-- The singleton returns with everything accounted for. -/
def Accounts (queueId : Nat) (config : DeltaStoreConfig) (owes : Account → UInt64) : Outcome → Prop
  | some (s, built) => s.Serviceable queueId config ∧ accountedBy s built = owes
  | none => False

variable {config : DeltaStoreConfig}

/-- A callback accounts for what was accounted for before it and for what it takes. -/
theorem follows_work {s : SingletonService} {built : List BuiltReport} {owes : Account → UInt64}
    (accounts : Accounts queueId config owes (some (s, built))) (occasion : Occasion) :
    Follows (accounting queueId true) (Accounts queueId config) (s.work calls sizes built occasion) owes := by
  obtain ⟨serviceable, rfl⟩ := accounts
  refine follows_bind.mpr (follows_folding_iff.mpr fun t q path => ?_)
  have own := (SingletonService.takesFrom_callback calls sizes serviceable.registered occasion).path path
  refine ⟨?_, ?_⟩
  · intro before c r after split _
    rw [if_pos rfl]
    exact own ⟨c, r⟩ (by rw [split]; simp)
  · rintro ⟨s', more⟩ rfl _
    have amount := callback_amount (r := { SingletonRun.begin none {} with service := s }) path
    refine ⟨serviceable.callback path, funext fun a => ?_⟩
    rw [foldl_owing]
    have taken : hitsIn (t.flatMap (takenBy queueId)) a = ((dequeued t).map (hits · a)).sum := by
      rw [← dequeued_taken own]
      rfl
    rw [taken]
    unfold accountedBy
    rw [List.flatMap_append, Ledger.amount_append]
    exact (Ledger.balance_carried rfl (amount a)).symm

/-! The invariant of the queue -/

theorem takenBy_untaken {c : HostCall} (untaken : Untaken queueId c) (r : c.Reply) :
    takenBy queueId ⟨c, r⟩ = [] := by
  unfold takenBy
  split
  · rename_i other item at_
    cases at_
    exact if_neg fun same : other = queueId => untaken (congrArg HostCall.dequeueSharedQueue same)
  · rfl

/-- A call puts its item behind what the queue holds, and takes the first one. -/
theorem exec_queue (queueId : Nat) (c : HostCall) (h : Host) :
    h.queues queueId ++ sentBy queueId ⟨c, (h.exec c).1⟩ =
      takenBy queueId ⟨c, (h.exec c).1⟩ ++ (h.exec c).2.queues queueId := by
  cases c with
  | enqueueSharedQueue other item =>
    by_cases same : other = queueId
    · subst same
      simp only [Host.exec, sentBy, takenBy, if_true, Function.update_self, List.nil_append]
    · simp only [Host.exec, sentBy, takenBy, same, if_false, Function.update_of_ne (Ne.symm same),
        List.append_nil, List.nil_append]
  | dequeueSharedQueue other =>
    by_cases same : other = queueId
    · subst same
      cases held : h.queues other with
      | nil => simp [Host.exec, sentBy, takenBy, held]
      | cons item rest => simp [Host.exec, sentBy, takenBy, held]
    · have untouched : (h.exec (.dequeueSharedQueue other)).2.queues queueId = h.queues queueId :=
        Function.update_of_ne (Ne.symm same) ..
      rw [untouched, takenBy_untaken fun at_ => same (HostCall.dequeueSharedQueue.inj at_)]
      exact List.append_nil _
  | _ => exact List.append_nil _

/-- What was sent was taken or is in the queue, and the singleton is to account
for what it has taken. -/
structure FlowInv (queueId : Nat) (s : UsageConfig ι) (owes : Option ι → Account → UInt64) : Prop where
  order : sent queueId s.trace = taken queueId s.trace ++ s.shared.queues queueId
  owed : ∀ a, owes none a = hitsIn (taken queueId s.trace) a

theorem usage_preserved (calls : ApiCalls) (sizes : Sizes) (queueId : Nat) (config : DeltaStoreConfig) :
    Preserved (usageParties ι calls sizes queueId) anyStep (fun party => accounting queueId party.isNone)
      (fun party owes outcome => party = none → Accounts queueId config owes outcome) (FlowInv queueId) where
  call := by
    intro s owes party c k inv at_ may _
    refine ⟨_, folding_next.mpr ⟨trivial, rfl⟩, ?_⟩
    have queue := exec_queue queueId c s.shared
    have sentMore : sent queueId (s.called (usageParties ι calls sizes queueId) party c k).trace =
        taken queueId s.trace ++ (s.shared.queues queueId ++ sentBy queueId ⟨c, (s.shared.exec c).1⟩) := by
      rw [← List.append_assoc, ← inv.order]
      simp [sent, Config.called, usageParties]
    cases party with
    | none =>
      have takenMore : taken queueId (s.called (usageParties ι calls sizes queueId) none c k).trace =
          taken queueId s.trace ++ takenBy queueId ⟨c, (s.shared.exec c).1⟩ := by
        simp [taken, Config.called, usageParties]
      refine ⟨?_, fun a => ?_⟩
      · rw [sentMore, takenMore, queue, List.append_assoc]
        rfl
      · rw [Function.update_self, takenMore, hitsIn_append, ← inv.owed]
        rfl
    | some i =>
      have takenSame : taken queueId (s.called (usageParties ι calls sizes queueId) (some i) c k).trace =
          taken queueId s.trace := by
        simp [taken, Config.called]
      refine ⟨?_, fun a => ?_⟩
      · rw [sentMore, takenSame, queue, takenBy_untaken may]
        rfl
      · rw [Function.update_of_ne (by simp), takenSame]
        exact inv.owed a
  resume := by
    intro s owes party outcome p inv at_ returned resume _
    refine ⟨owes party, ?_, by rw [Function.update_eq_self]; exact ⟨inv.order, inv.owed⟩⟩
    cases party with
    | none =>
      cases outcome with
      | none => exact resume.elim
      | some held =>
        obtain ⟨occasion, rfl⟩ := resume
        exact (follows_work (returned rfl) occasion).mono fun _ _ accounts _ => accounts
    | some i =>
      obtain ⟨task, spares, rfl⟩ := resume
      have only : (task.program >>= fun _ => (pure none : HostProg Outcome)).Only (Untaken queueId) :=
        Prog.only_bind (untaken_filterTask spares) fun _ => trivial
      have keeps : (accounting queueId false).Keeps (fun _ _ => True) (Untaken queueId) :=
        folding_keeps (fun _ => trivial) (fun _ _ => trivial) (fun _ _ untaken => untaken)
          fun _ _ _ _ => trivial
      refine (keeps.follows only _).mono fun _ _ _ impossible => ?_
      cases impossible
  env := by
    rintro s owes _ inv ⟨clock, dispatch, rfl⟩
    exact ⟨inv.order, inv.owed⟩

theorem accountedBy_start (queueId : Nat) (config : DeltaStoreConfig) :
    accountedBy (.start (some queueId) config) [] = fun _ => 0 := by
  funext a
  show Deltas.held ∅ a + 0 = 0
  rw [Deltas.held_absent (AList.lookup_empty a.1), add_zero]

theorem serviceable_start (queueId : Nat) (config : DeltaStoreConfig) :
    (SingletonService.start (some queueId) config).Serviceable queueId config where
  registered := rfl
  separated := fun key member => absurd member (AList.notMem_empty key)
  configured := rfl

theorem usage_flowInv {h : Host} {s : UsageConfig ι}
    (empty : h.queues queueId = [])
    (reach : Reach (usageParties ι calls sizes queueId) anyStep (usageStart ι queueId config h) s) :
    ∃ owes, FlowInv queueId s owes ∧
      ∀ service built, s.procs none = .done (some (service, built)) →
        Accounts queueId config (owes none) (some (service, built)) := by
  obtain ⟨owes, inv, follows⟩ := reach.invariant (usage_preserved calls sizes queueId config) (by
    refine ⟨fun _ _ => 0, ⟨?_, fun _ => rfl⟩, fun party => ?_⟩
    · exact empty.symm
    · cases party with
      | none => exact fun _ => ⟨serviceable_start queueId config, accountedBy_start queueId config⟩
      | some i => rintro ⟨⟩)
  refine ⟨owes, inv, fun service built idle => ?_⟩
  have here := follows none
  rw [idle] at here
  exact here rfl

/-- However the callbacks of all are interleaved, usage that was sent is in the
queue, in the store or in a report, once. -/
theorem usage_flows {h : Host} {s : UsageConfig ι} (empty : h.queues queueId = [])
    (reach : Reach (usageParties ι calls sizes queueId) anyStep (usageStart ι queueId config h) s) :
    UsageFlow queueId s := by
  obtain ⟨owes, inv, accounts⟩ := usage_flowInv empty reach
  refine ⟨inv.order, fun service built idle a => ?_⟩
  rw [inv.order, hitsIn_append, ← inv.owed, ← (accounts service built idle).2]
  exact add_comm ..

/-- A filter has sent the message for a cache hit. -/
def hitSent : UsageConfig Unit :=
  ((usageStart Unit 7 {} (cachedHost (cachedWith ∅))).resumed (some ())
    ((FilterTask.requestHeaders hitLib 3 (hitFilter 1) hitHeaders).program >>= fun _ => pure none)).play
      (usageParties Unit oneHitCalls wasmSizes 7) (List.replicate 13 (some ()))

theorem hitSent_reached :
    Reach (usageParties Unit oneHitCalls wasmSizes 7) anyStep
      (usageStart Unit 7 {} (cachedHost (cachedWith ∅))) hitSent :=
  Reach.play _ (.next .start
    (.resume rfl ⟨.requestHeaders hitLib 3 (hitFilter 1) hitHeaders, trivial, rfl⟩) trivial)

/-- The singleton has a callback. -/
def serve (occasion : Occasion) (calls_ : Nat) (s : UsageConfig Unit) : UsageConfig Unit :=
  match s.procs none with
  | .done (some (service, built)) =>
    (s.resumed none (service.work oneHitCalls wasmSizes built occasion)).play
      (usageParties Unit oneHitCalls wasmSizes 7) (List.replicate calls_ none)
  | _ => s

/-- The filter has the next request. -/
def request (s : UsageConfig Unit) : UsageConfig Unit :=
  match s.procs (some ()) with
  | .done _ =>
    (s.resumed (some ()) ((FilterTask.requestHeaders hitLib 3 (hitFilter 1) hitHeaders).program >>= fun _ =>
      pure none)).play (usageParties Unit oneHitCalls wasmSizes 7) (List.replicate 14 (some ()))
  | _ => s

section
variable {init s : UsageConfig Unit} (reach : Reach (usageParties Unit oneHitCalls wasmSizes 7) anyStep init s)
include reach

theorem serve_reached (occasion : Occasion) (calls_ : Nat) :
    Reach (usageParties Unit oneHitCalls wasmSizes 7) anyStep init (serve occasion calls_ s) := by
  unfold serve
  split
  · rename_i service built at_
    exact Reach.play _ (.next reach (.resume at_ ⟨occasion, rfl⟩) trivial)
  · exact reach

theorem request_reached : Reach (usageParties Unit oneHitCalls wasmSizes 7) anyStep init (request s) := by
  unfold request
  split
  · rename_i outcome at_
    exact Reach.play _ (.next reach
      (.resume at_ ⟨.requestHeaders hitLib 3 (hitFilter 1) hitHeaders, trivial, rfl⟩) trivial)
  · exact reach

end

def roomyStart : UsageConfig Unit := usageStart Unit 7 { capacity := 1000 } (cachedHost (cachedWith ∅))

/-- One hit is reported, one is in the store, and one is in the queue. -/
def underway : UsageConfig Unit :=
  request (serve .queueReady 1 (request (serve .tick 2 (serve .queueReady 1 (request roomyStart)))))

def hitAccount : Account := ("s_t".toList, ['a'], "hits".toList)

theorem underway_reached : Reach (usageParties Unit oneHitCalls wasmSizes 7) anyStep roomyStart underway :=
  request_reached (serve_reached (request_reached
    (serve_reached (serve_reached (request_reached .start) .queueReady 1) .tick 2)) .queueReady 1)

theorem usage_flows_underway : UsageFlow 7 underway ∧ ∃ service built,
    underway.procs none = .done (some (service, built)) ∧ hitsIn (underway.shared.queues 7) hitAccount = 1 ∧
      Deltas.held service.deltaStore.deltas hitAccount = 1 ∧
      Ledger.amount hitAccount (built.flatMap BuiltReport.lines) = 1 := by
  have flows : UsageFlow 7 underway := usage_flows rfl underway_reached
  have queued : hitsIn (underway.shared.queues 7) hitAccount = 1 := by decide
  refine ⟨flows, _, _, rfl, queued, ?_, ?_⟩
  · rfl
  · rfl

end ThreescaleCache
