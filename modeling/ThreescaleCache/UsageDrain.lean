import ThreescaleCache.UsageFlow

namespace ThreescaleCache
open Interaction

/-! The singleton can report everything that was sent, if it is left to work. -/

variable {ι : Type} [DecidableEq ι] {calls : ApiCalls} {sizes : Sizes} {queueId : Nat}
  {config : DeltaStoreConfig}

/-- The singleton has worked while all others paused. -/
structure Advanced (queueId : Nat) (s s' : UsageConfig ι) : Prop where
  paused : ∀ i, s'.procs (some i) = s.procs (some i)
  unsent : sent queueId s'.trace = sent queueId s.trace

omit [DecidableEq ι] in
theorem Advanced.refl (s : UsageConfig ι) : Advanced queueId s s := ⟨fun _ => rfl, rfl⟩

omit [DecidableEq ι] in
theorem Advanced.trans {s₁ s₂ s₃ : UsageConfig ι} (first : Advanced queueId s₁ s₂)
    (second : Advanced queueId s₂ s₃) : Advanced queueId s₁ s₃ where
  paused := fun i => (second.paused i).trans (first.paused i)
  unsent := second.unsent.trans first.unsent

/-- Nothing is left in the queue and in the store: all that was sent has been reported. -/
structure Drained (queueId : Nat) (s : UsageConfig ι) : Prop where
  emptied : s.shared.queues queueId = []
  reported : ∃ service built, s.procs none = .done (some (service, built)) ∧
    service.deltaStore.deltas = ∅ ∧
    ∀ a, Ledger.amount a (built.flatMap BuiltReport.lines) = hitsIn (sent queueId s.trace) a

/-- A message that leaves the cache to the filters. -/
def PlainItem (item : QueueItem) : Prop :=
  ∃ message, item = .message message ∧ message.updateCacheFromSingleton = false

theorem plain_takeless {e : HostEvent} (takeless : Takeless e.1) : Plain e := by
  obtain ⟨c, r⟩ := e
  cases c with
  | dequeueSharedQueue queueId => exact absurd rfl (takeless queueId)
  | _ => trivial

theorem takenBy_takeless {e : HostEvent} (takeless : Takeless e.1) : takenBy queueId e = [] :=
  takenBy_untaken (takeless queueId) e.2

/-- The singleton puts nothing into a queue. -/
theorem sentBy_singletonCall {e : HostEvent} (own : SingletonService.SingletonCall e.1) :
    sentBy queueId e = [] := by
  obtain ⟨c, r⟩ := e
  cases c with
  | enqueueSharedQueue other item =>
    cases own with
    | refresh refresh => cases refresh with | filing filing => cases filing with | side side => cases side
    | check check => cases check with | filing filing => cases filing with | side side => cases side
  | _ => rfl

namespace SingletonService

theorem only_callback (calls : ApiCalls) (sizes : Sizes) (s : SingletonService) (occasion : Occasion) :
    (occasion.callback calls sizes s).Only SingletonCall := by
  cases occasion with
  | queueReady => exact only_onQueueReady calls sizes s
  | tick => exact (only_onTick calls s).mono fun _ => FlushCall.singleton
  | response token reply =>
    exact Prog.only_bind ((only_onHttpCallResponse s token reply).mono fun _ => .refresh) fun _ => trivial

/-- The run of the callback for the queue takes the first item, and nothing else. -/
theorem ran_queueReady (calls : ApiCalls) (sizes : Sizes) {s : SingletonService}
    (registered : s.queueId = some queueId) {h : Host} {item : QueueItem} {rest : List QueueItem}
    (held : h.queues queueId = item :: rest) :
    ∃ t, ((s.onQueueReady calls sizes).run Host.exec h).trace =
        ⟨.dequeueSharedQueue queueId, .ok (some item)⟩ :: t ∧ ∀ e ∈ t, Takeless e.1 := by
  obtain ⟨k, same, later⟩ := onQueueReady_takes calls sizes registered
  have reply : (h.exec (.dequeueSharedQueue queueId)).1 = .ok (some item) := by
    simp only [Host.exec, held, List.head?_cons]
  rw [same]
  refine ⟨_, ?_, (later _).path (Prog.run_path Host.exec (k (h.exec (.dequeueSharedQueue queueId)).1)
    (h.exec (.dequeueSharedQueue queueId)).2)⟩
  exact congrArg (fun r => (⟨.dequeueSharedQueue queueId, r⟩ : HostEvent) :: _) reply

end SingletonService

/-- The singleton may run a callback that returns while all others pause; it
takes from the front of the queue. -/
theorem turn {h : Host} {s : UsageConfig ι} {service : SingletonService} {built : List BuiltReport}
    {ok : HostEvent → Prop} (empty : h.queues queueId = [])
    (reach : Reach (usageParties ι calls sizes queueId) anyStep (usageStart ι queueId config h) s)
    (idle : s.procs none = .done (some (service, built))) (occasion : Occasion)
    (returns : (occasion.callback calls sizes service).Returns ok)
    (admitted : ∀ e ∈ ((occasion.callback calls sizes service).run Host.exec s.shared).trace, ok e) :
    ∃ s' service' more,
      Reach (usageParties ι calls sizes queueId) anyStep (usageStart ι queueId config h) s' ∧
      Advanced queueId s s' ∧ s'.procs none = .done (some (service', built ++ more)) ∧
      Prog.Path (occasion.callback calls sizes service)
        ((occasion.callback calls sizes service).run Host.exec s.shared).trace (.done (service', more)) ∧
      s.shared.queues queueId =
        ((occasion.callback calls sizes service).run Host.exec s.shared).trace.flatMap (takenBy queueId) ++
          s'.shared.queues queueId := by
  obtain ⟨⟨service', more⟩, ended⟩ := returns.run admitted
  have path := Prog.run_path Host.exec (occasion.callback calls sizes service) s.shared
  cases ran : (occasion.callback calls sizes service).run Host.exec s.shared with
  | mk t rest h' =>
    rw [ran] at path ended
    subst ended
    have whole : (service.work calls sizes built occasion).run Host.exec s.shared =
        ⟨t, .done (some (service', built ++ more)), h'⟩ := by
      unfold SingletonService.work
      rw [Prog.run_bind_done ran]
      simp only [Prog.run, Pure.pure, List.append_nil]
    have resumed := Reach.next reach (.resume idle ⟨occasion, rfl⟩) trivial
    have later := resumed.ran (p := service.work calls sizes built occasion) (Function.update_self ..)
    have run : (service.work calls sizes built occasion).run
        ((usageParties ι calls sizes queueId).exec none) s.shared = _ := whole
    simp only [Config.resumed, run] at later
    have own := (SingletonService.only_callback calls sizes service occasion).path path
    have quiet : t.flatMap (sentBy queueId) = [] :=
      List.flatMap_eq_nil_iff.mpr fun e member => sentBy_singletonCall (own e member)
    refine ⟨_, service', more, later, ⟨fun i => ?_, ?_⟩, ?_, path, ?_⟩
    · simp [Config.ran]
    · simp [Config.ran, sent, List.flatMap_append, List.flatMap_map, quiet]
    · simp [Config.ran]
    · have before := (usage_flowInv empty reach).choose_spec.1.order
      have after := (usage_flowInv empty later).choose_spec.1.order
      simp only [Config.ran, sent, taken, List.flatMap_append, List.flatMap_map, quiet, List.append_nil,
        if_true, List.append_assoc] at after
      simp only [sent, taken] at before
      exact List.append_cancel_left (before.symm.trans after)

/-- One item is taken from the queue. -/
theorem turn_queueReady (builds : ∀ call, (calls.buildReport call).isSome) {h : Host} {s : UsageConfig ι}
    {service : SingletonService} {built : List BuiltReport} (empty : h.queues queueId = [])
    (reach : Reach (usageParties ι calls sizes queueId) anyStep (usageStart ι queueId config h) s)
    (idle : s.procs none = .done (some (service, built))) {item : QueueItem} {rest : List QueueItem}
    (held : s.shared.queues queueId = item :: rest) (plain : PlainItem item) :
    ∃ s' service' built',
      Reach (usageParties ι calls sizes queueId) anyStep (usageStart ι queueId config h) s' ∧
      Advanced queueId s s' ∧ s'.procs none = .done (some (service', built')) ∧
      s'.shared.queues queueId = rest := by
  obtain ⟨owes, _, accounts⟩ := usage_flowInv empty reach
  have serviceable := (accounts service built idle).1
  obtain ⟨t, trace, takeless⟩ := SingletonService.ran_queueReady calls sizes serviceable.registered held
  have admitted : ∀ e ∈ ((service.onQueueReady calls sizes).run Host.exec s.shared).trace, Plain e := by
    intro e member
    rw [trace] at member
    rcases List.mem_cons.mp member with rfl | old
    · obtain ⟨message, rfl, unset⟩ := plain
      exact unset
    · exact plain_takeless (takeless e old)
  obtain ⟨s', service', more, reach', advanced, idle', _, queue⟩ :=
    turn empty reach idle .queueReady
      (returns_onQueueReady builds (by rw [serviceable.registered]; rfl) serviceable.separated) admitted
  refine ⟨s', service', _, reach', advanced, idle', ?_⟩
  have nothing : t.flatMap (takenBy queueId) = [] :=
    List.flatMap_eq_nil_iff.mpr fun e member => takenBy_takeless (takeless e member)
  have taken : ((service.onQueueReady calls sizes).run Host.exec s.shared).trace.flatMap (takenBy queueId) =
      [item] := by
    rw [trace, List.flatMap_cons, nothing, List.append_nil]
    exact if_pos rfl
  rw [held] at queue
  exact (List.cons.inj (queue.trans (congrArg (· ++ _) taken))).2.symm

/-- A tick empties the store and leaves the queue. -/
theorem turn_tick (builds : ∀ call, (calls.buildReport call).isSome)
    (ticks : config.flushMode ≠ .containerLimit) {h : Host} {s : UsageConfig ι}
    {service : SingletonService} {built : List BuiltReport} (empty : h.queues queueId = [])
    (reach : Reach (usageParties ι calls sizes queueId) anyStep (usageStart ι queueId config h) s)
    (idle : s.procs none = .done (some (service, built))) :
    ∃ s' service' built',
      Reach (usageParties ι calls sizes queueId) anyStep (usageStart ι queueId config h) s' ∧
      Advanced queueId s s' ∧ s'.procs none = .done (some (service', built')) ∧
      s'.shared.queues queueId = s.shared.queues queueId ∧ service'.deltaStore.deltas = ∅ := by
  obtain ⟨owes, _, accounts⟩ := usage_flowInv empty reach
  have serviceable := (accounts service built idle).1
  have takeless : ∀ e ∈ ((service.onTick calls).run Host.exec s.shared).trace, Takeless e.1 :=
    ((SingletonService.only_onTick calls service).mono fun _ => SingletonService.takeless_flushCall).path
      (Prog.run_path Host.exec _ _)
  obtain ⟨s', service', more, reach', advanced, idle', path, queue⟩ :=
    turn empty reach idle .tick (returns_onTick builds serviceable.separated)
      fun e member => plain_takeless (takeless e member)
  refine ⟨s', service', _, reach', advanced, idle', ?_, ?_⟩
  · have nothing : ((service.onTick calls).run Host.exec s.shared).trace.flatMap (takenBy queueId) = [] :=
      List.flatMap_eq_nil_iff.mpr fun e member => takenBy_takeless (takeless e member)
    exact (queue.trans (congrArg (· ++ _) nothing)).symm
  · have path : Prog.Path (service.onTick calls) _ (.done (service', more)) := path
    unfold SingletonService.onTick at path
    rw [if_pos (serviceable.configured ▸ ticks)] at path
    exact flushed_deltas (SingletonService.flushLocalCache_flushed path)

/-- With one item after the other taken, the queue gets empty. -/
theorem queue_drains (builds : ∀ call, (calls.buildReport call).isSome) {h : Host} {s : UsageConfig ι}
    {service : SingletonService} {built : List BuiltReport} (empty : h.queues queueId = [])
    (reach : Reach (usageParties ι calls sizes queueId) anyStep (usageStart ι queueId config h) s)
    (idle : s.procs none = .done (some (service, built)))
    (plain : ∀ item ∈ s.shared.queues queueId, PlainItem item) :
    ∃ s' service' built',
      Reach (usageParties ι calls sizes queueId) anyStep (usageStart ι queueId config h) s' ∧
      Advanced queueId s s' ∧ s'.procs none = .done (some (service', built')) ∧
      s'.shared.queues queueId = [] := by
  induction held : s.shared.queues queueId generalizing s service built with
  | nil => exact ⟨s, service, built, reach, .refl s, idle, held⟩
  | cons item rest ih =>
    rw [held] at plain
    obtain ⟨s₁, service₁, built₁, reach₁, advanced₁, idle₁, queue₁⟩ :=
      turn_queueReady builds empty reach idle held (plain item List.mem_cons_self)
    obtain ⟨s₂, service₂, built₂, reach₂, advanced₂, idle₂, queue₂⟩ :=
      ih reach₁ idle₁ (by rw [queue₁]; exact fun other member => plain other (List.mem_cons_of_mem _ member)) queue₁
    exact ⟨s₂, service₂, built₂, reach₂, advanced₁.trans advanced₂, idle₂, queue₂⟩

end ThreescaleCache
