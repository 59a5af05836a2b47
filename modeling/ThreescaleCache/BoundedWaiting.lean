import ThreescaleCache.AttendedWaiters
import ThreescaleCache.FilterTasks
import ThreescaleCache.InFlight
import ThreescaleCache.Interaction.Runs

namespace ThreescaleCache
open Interaction

/-! Runs of whole callbacks in which contexts wait: none is forgotten, and none
is overtaken in the queue of its thread. -/

/-- No context is spared. -/
def nobody : Nat → Nat → Prop := fun _ _ => False

/-- The contexts of a thread that the first item of its queue is for. -/
def Addressed (rootId queueId : Nat) (h : Host) : Nat → Nat → Prop := fun r contextId =>
  r = rootId ∧ h.place queueId contextId = some 0

/-- Queues with different names have different ids. -/
def QueuesApart (ids : Str → Option Nat) : Prop :=
  ∀ a b queueId, ids a = some queueId → ids b = some queueId → a = b

theorem threadQueueName_injective {rootId other : Nat} (same : threadQueueName rootId = threadQueueName other) :
    rootId = other :=
  calc rootId
    _ = Nat.ofDigitChars 10 (threadQueueName rootId) 0 := Nat.ofDigitChars_ten_toDigits.symm
    _ = Nat.ofDigitChars 10 (threadQueueName other) 0 := by rw [same]
    _ = other := Nat.ofDigitChars_ten_toDigits

/-- A queue is that of one thread. -/
theorem QueuesApart.thread {ids : Str → Option Nat} {rootId other queueId : Nat} (apart : QueuesApart ids)
    (own : ids (threadQueueName rootId) = some queueId) (its : ids (threadQueueName other) = some queueId) :
    other = rootId :=
  threadQueueName_injective (apart _ _ queueId its own)

variable {ids : Str → Option Nat} {spared : Nat → Nat → Prop} {base h h' : Host} {queueId : Nat}

/-! A thread takes an item out of its queue. -/

theorem place_taken {contextId n : Nat} (here : h.place queueId contextId = some (n + 1)) :
    (Host.exec (.dequeueSharedQueue queueId) h).2.place queueId contextId = some n := by
  unfold Host.place at here ⊢
  simp only [Host.exec, Function.update_self]
  cases items : h.queues queueId with
  | nil =>
    rw [items] at here
    cases here
  | cons item rest =>
    rw [items, List.findIdx?_cons] at here
    cases is : isFor contextId item with
    | true => simp [is] at here
    | false => simpa [is] using here

theorem place_elsewhere {other contextId : Nat} (different : other ≠ queueId) :
    (Host.exec (.dequeueSharedQueue queueId) h).2.place other contextId = h.place other contextId := by
  unfold Host.place
  simp only [Host.exec, Function.update_of_ne different]

/-- The first item is for somebody exactly if it wakes them. -/
theorem place_first {contextId : Nat} :
    h.place queueId contextId = some 0 ↔
      ∃ item, (h.queues queueId).head? = some item ∧ isFor contextId item = true := by
  unfold Host.place
  cases h.queues queueId with
  | nil => simp
  | cons item rest =>
    rw [List.findIdx?_cons]
    cases is : isFor contextId item <;> simp [is]

namespace Attended

/-- Spared contexts may be left out where none of them waits. -/
theorem settle (attended : Attended ids spared base h)
    (gone : ∀ rootId contextId, spared rootId contextId → h.waiting rootId contextId = none) :
    Attended ids nobody h h where
  registered := attended.registered
  apps := attended.apps
  waits := by
    intro rootId contextId context waits _
    refine attended.waits rootId contextId context waits fun isSpared => ?_
    rw [gone rootId contextId isSpared] at waits
    cases waits
  queues := fun _ => List.prefix_refl _
  waiting := fun _ _ waits _ => waits

theorem remove {rootId contextId : Nat} (attended : Attended ids spared base h)
    (isSpared : spared rootId contextId) :
    Attended ids spared base (Host.exec (.removeWaitingContext rootId contextId) h).2 := by
  have others : ∀ r c, ¬spared r c →
      (Host.exec (.removeWaitingContext rootId contextId) h).2.waiting r c = h.waiting r c := by
    intro r c unspared
    simp only [Host.exec, update_update]
    refine if_neg ?_
    rintro ⟨rfl, rfl⟩
    exact unspared isSpared
  refine ⟨attended.registered, attended.apps, fun r c context waits unspared => ?_, attended.queues,
    fun r c waits unspared => ?_⟩
  · rw [others r c unspared] at waits
    exact attended.waits r c context waits unspared
  · rw [others r c unspared]
    exact attended.waiting r c waits unspared

/-- Only the item is lost: those that it is not for have one behind it. -/
theorem take {rootId : Nat} (attended : Attended ids nobody base h) (apart : QueuesApart ids)
    (own : ids (threadQueueName rootId) = some queueId) :
    Attended ids (Addressed rootId queueId h) (Host.exec (.dequeueSharedQueue queueId) h).2
      (Host.exec (.dequeueSharedQueue queueId) h).2 := by
  refine ⟨attended.registered, attended.apps, fun r contextId context waits unspared => ?_,
    fun _ => List.prefix_refl _, fun _ _ waits _ => waits⟩
  obtain ⟨its, isIts, listed | placed⟩ := attended.waits r contextId context waits id
  · exact ⟨its, isIts, Or.inl listed⟩
  · refine ⟨its, isIts, Or.inr ?_⟩
    by_cases same : its = queueId
    · subst same
      obtain ⟨n, here⟩ := Option.isSome_iff_exists.mp placed
      cases n with
      | zero => exact absurd ⟨apart.thread own isIts, here⟩ unspared
      | succ n =>
        rw [place_taken here]
        rfl
    · rw [place_elsewhere same]
      exact placed

end Attended

/-- The contexts of the action are spared: the rule of a waiter that is woken. -/
theorem attends_resumeWaiter {root : CacheFilterRoot} {action : WaiterAction}
    (only : ∀ rootId contextId, spared rootId contextId ↔ rootId = root.id ∧ contextId = action.contextId)
    (attended : Attended ids spared base h) :
    Alone Host.exec (fun h' r => ∀ a, r = some a → Attended ids spared base h' ∧
        ∀ rootId contextId, spared rootId contextId → h'.waiting rootId contextId = none)
      (root.resumeWaiter action) h := by
  unfold CacheFilterRoot.resumeWaiter
  refine alone_perform_bind.mpr ?_
  simp only [Host.exec]
  cases waits : h.waiting root.id action.contextId with
  | none =>
    rintro _ ⟨⟩
    refine ⟨attended, fun rootId contextId isSpared => ?_⟩
    obtain ⟨rfl, rfl⟩ := (only rootId contextId).mp isSpared
    exact waits
  | some context =>
    refine alone_perform_bind.mpr ?_
    simp only [Host.exec]
    refine triple_bind (tends_wakeWaiter context action ids spared base) (fun _ => ?_) h attended
    rintro h' later _ ⟨⟩
    refine ⟨later.remove ((only _ _).mpr ⟨rfl, rfl⟩), fun rootId contextId isSpared => ?_⟩
    obtain ⟨rfl, rfl⟩ := (only rootId contextId).mp isSpared
    simp only [Host.exec, Function.update_self]

/-- The callback of a queue leaves those alone that the item is not for. The
context that it is for waits no longer. -/
theorem attends_onQueueReady {root : CacheFilterRoot} (apart : QueuesApart ids)
    (own : ids (threadQueueName root.id) = some queueId) (attended : Attended ids nobody base h) :
    Alone Host.exec (fun h' r => ∀ a, r = some a →
      Attended ids (Addressed root.id queueId h) (Host.exec (.dequeueSharedQueue queueId) h).2 h' ∧
        ∀ rootId contextId, Addressed root.id queueId h rootId contextId → h'.waiting rootId contextId = none)
      (root.onQueueReady queueId) h := by
  have taken := attended.take apart own
  have nowhere : (∀ action, (h.queues queueId).head? ≠ some (.waiterAction action)) →
      ∀ rootId contextId, Addressed root.id queueId h rootId contextId → h.waiting rootId contextId = none := by
    rintro message rootId contextId ⟨_, first⟩
    obtain ⟨item, head, is⟩ := place_first.mp first
    cases item with
    | waiterAction action => exact absurd head (message action)
    | message => cases is
  unfold CacheFilterRoot.onQueueReady
  refine alone_perform_bind.mpr ?_
  cases head : (h.queues queueId).head? with
  | none =>
    simp only [Host.exec, head]
    rintro _ ⟨⟩
    exact ⟨taken, nowhere (by simp [head])⟩
  | some item =>
    cases item with
    | message =>
      simp only [Host.exec, head]
      rintro _ ⟨⟩
      exact ⟨taken, nowhere (by simp [head])⟩
    | waiterAction action =>
      have only : ∀ rootId contextId, Addressed root.id queueId h rootId contextId ↔
          rootId = root.id ∧ contextId = action.contextId := by
        intro rootId contextId
        refine and_congr_right fun _ => place_first.trans ?_
        simp only [head, Option.some.injEq, exists_eq_left', isFor, beq_iff_eq]
        exact eq_comm
      simp only [Host.exec, head]
      exact attends_resumeWaiter only taken

/-! Runs -/

/-- Roots are only called for the queues that they have registered. -/
def Attentive (w : World) (d : Delivery) : Prop :=
  Releases w d ∧ ∀ root queueId, d = .queueReady root queueId →
    w.host.queueIds (threadQueueName root.id) = some queueId

def Attends (w : World) (d : Delivery) (w' : World) : Prop := Delivers w d w' ∧ Attentive w d

/-- The first item of the queue is taken. -/
def serves (queueId : Nat) : Delivery → Bool
  | .queueReady _ own => own == queueId
  | _ => false

section
variable {w w' : World} {d : Delivery}

/-- Callbacks of other kinds take no item, and spare nobody. -/
theorem Attended.unserved (attended : Attended ids nobody w.host w.host) (step : Attends w d w')
    (other : ∀ root own, d ≠ .queueReady root own) : Attended ids nobody w.host w'.host := by
  obtain ⟨delivers, releases, _⟩ := step
  cases delivers with
  | called run => exact (tends_onHttpRequestHeaders _ _ _ _ ids nobody _).run attended run
  | settled run => exact (tends_onHttpRequestHeaders _ _ _ _ ids nobody _).run attended run
  | responded split run => exact (tends_onHttpCallResponse releases.2 ids nobody _).run attended run
  | served => exact absurd rfl (other _ _)
  | moved env =>
    obtain ⟨clock, dispatch, rfl⟩ := env
    exact ⟨attended.registered, attended.apps, attended.waits, attended.queues, attended.waiting⟩

theorem Attended.served {root : CacheFilterRoot} (attended : Attended ids nobody w.host w.host)
    (apart : QueuesApart ids) (step : Attends w (.queueReady root queueId) w') :
    ids (threadQueueName root.id) = some queueId ∧
      Attended ids (Addressed root.id queueId w.host) (Host.exec (.dequeueSharedQueue queueId) w.host).2 w'.host ∧
      ∀ rootId contextId, Addressed root.id queueId w.host rootId contextId →
        w'.host.waiting rootId contextId = none := by
  obtain ⟨delivers, _, registers⟩ := step
  have own : ids (threadQueueName root.id) = some queueId := attended.registered ▸ registers root queueId rfl
  cases delivers with
  | served run =>
    have held := alone_iff_run.mp (attends_onQueueReady apart own attended)
    rw [run] at held
    exact ⟨own, held () rfl⟩

theorem Attended.step (attended : Attended ids nobody w.host w.host) (apart : QueuesApart ids)
    (step : Attends w d w') : Attended ids nobody w'.host w'.host := by
  cases d with
  | queueReady root queueId =>
    obtain ⟨_, later, gone⟩ := attended.served apart step
    exact later.settle gone
  | requestHeaders | callResponse | surroundings => exact (attended.unserved step (by rintro _ _ ⟨⟩)).refl

/-- A waiting context with an item in the queue of its thread: its place is that
of the item, and only the callbacks of this queue bring it forward. -/
theorem countdown_place {rootId : Nat} (contextId : Nat) (apart : QueuesApart ids)
    (own : ids (threadQueueName rootId) = some queueId) :
    Countdown Attends (serves queueId)
      (fun w => Attended ids nobody w.host w.host ∧ (w.host.waiting rootId contextId).isSome)
      (fun w => w.host.waiting rootId contextId = none) (fun w => w.host.place queueId contextId) where
  passes := by
    rintro w d w' n ⟨attended, waits⟩ here step unserved
    have later := attended.step apart step
    cases d with
    | queueReady root other =>
      obtain ⟨its, served, _⟩ := attended.served apart step
      have different : other ≠ queueId := by simpa [serves] using unserved
      have unspared : ¬Addressed root.id other w.host rootId contextId := by
        rintro ⟨rfl, _⟩
        exact different (Option.some.inj (its.symm.trans own))
      refine ⟨⟨later, served.waiting rootId contextId waits unspared⟩, ?_⟩
      exact place_grown (served.queues queueId) ((place_elsewhere different.symm).trans here)
    | requestHeaders | callResponse | surroundings =>
      have grown := attended.unserved step (by rintro _ _ ⟨⟩)
      exact ⟨⟨later, grown.waiting rootId contextId waits id⟩, place_grown (grown.queues queueId) here⟩
  advances := by
    rintro w d w' n ⟨attended, waits⟩ here step served
    have later := attended.step apart step
    cases d with
    | queueReady root other =>
      cases (beq_iff_eq.mp served : other = queueId)
      obtain ⟨_, served, _⟩ := attended.served apart step
      have unspared : ¬Addressed root.id queueId w.host rootId contextId := by
        rintro ⟨_, first⟩
        rw [here] at first
        cases first
      refine ⟨⟨later, served.waiting rootId contextId waits unspared⟩, ?_⟩
      exact place_grown (served.queues queueId) (place_taken here)
    | requestHeaders | callResponse | surroundings => cases served
  serves := by
    rintro w d w' ⟨attended, _⟩ here step served
    cases d with
    | queueReady root other =>
      cases (beq_iff_eq.mp served : other = queueId)
      obtain ⟨its, _, gone⟩ := attended.served apart step
      exact gone rootId contextId ⟨apart.thread its own, here⟩
    | requestHeaders | callResponse | surroundings => cases served

end

/-! The response that is waited for -/

theorem waiting_answerCall {key : CacheKey} {c : HostCall} (answer : AnswerCall key c) :
    (Host.exec c h).2.waiting = h.waiting := by
  cases answer with
  | giveUp failure => cases failure <;> rfl
  | record | refuse => rfl
  | hit hit =>
    cases hit with
    | count | resolve | time | report | limit | resume => rfl
    | check check =>
      cases check with
      | checked => rfl
      | filing filing =>
        cases filing with
        | application => rfl
        | side side => cases side <;> rfl

/-- The response callback leaves the waiting contexts where they are. -/
theorem waiting_onHttpCallResponse {f : CacheFilter} {response : CallResponse}
    {waiting : Nat → Nat → Option CacheFilter} :
    Triple Host.exec (fun h => h.waiting = waiting) (f.onHttpCallResponse response) fun _ h =>
      h.waiting = waiting := by
  refine triple_only (only_contextResponse f response) fun c h call same => ?_
  rcases call with answer | free
  · exact (waiting_answerCall answer).trans same
  · cases free <;> exact same

/-- No lock is held, nobody waits, and the queues have ids of their own. -/
structure Idle (h : Host) : Prop where
  clean : Clean h
  queues : QueuesApart h.queueIds
  waiting : ∀ rootId contextId, h.waiting rootId contextId = none

theorem Delivered.releases {init w : World} (reach : Delivered Attentive init w) : Delivered Releases init w := by
  induction reach with
  | start => exact .start
  | next _ step guard ih => exact .next ih step guard.1

theorem attended_reached {w : World} (idle : Idle h) (reach : Delivered Attentive ⟨h, []⟩ w) :
    Attended h.queueIds nobody w.host w.host := by
  induction reach with
  | start =>
    refine ⟨rfl, idle.clean.apps, fun rootId contextId context waits => ?_, fun _ => List.prefix_refl _,
      fun _ _ waits _ => waits⟩
    rw [idle.waiting] at waits
    cases waits
  | next _ step guard ih => exact ih.step idle.queues ⟨step, guard⟩

/-- In every run whose steps all meet `Attentive`, a context that waits is in the
list of a lock with a callout in flight, or has an item in the queue of its
thread. The response to such a callout gives it one. Its place is then the
number of callbacks for this queue that come before its own: after as many it
still waits, and the next one takes it off the waiting contexts. -/
theorem waiters_served {h : Host} {w : World} {rootId contextId : Nat} {context : CacheFilter} (idle : Idle h)
    (reach : Delivered Attentive ⟨h, []⟩ w) (waits : w.host.waiting rootId contextId = some context) :
    ∃ queueId, h.queueIds (threadQueueName rootId) = some queueId ∧
      ((Listed w.host.shared (lockKey context) ⟨queueId, contextId⟩ ∧
          ∃ flight ∈ w.flights, lockKey flight.context = lockKey context) ∨
        (w.host.place queueId contextId).isSome) ∧
      (∀ flight response w', lockKey flight.context = lockKey context →
        Attends w (.callResponse flight response) w' → (w'.host.place queueId contextId).isSome) ∧
      ∀ n, w.host.place queueId contextId = some n → ∀ ds w', Steps Attends w ds w' →
        (ds.countP (serves queueId) ≤ n →
          (w'.host.waiting rootId contextId).isSome ∧
            w'.host.place queueId contextId = some (n - ds.countP (serves queueId))) ∧
        (n < ds.countP (serves queueId) →
          ∃ before d after w₁ w₂, ds = before ++ d :: after ∧ serves queueId d = true ∧
            before.countP (serves queueId) = n ∧ Steps Attends w before w₁ ∧ Attends w₁ d w₂ ∧
            Steps Attends w₂ after w' ∧ w₂.host.waiting rootId contextId = none) := by
  have inv := worldInv_reached idle.clean reach.releases
  have attended := attended_reached idle reach
  obtain ⟨queueId, own, here⟩ := attended.waits rootId contextId context waits id
  refine ⟨queueId, own, here.imp_left fun listed => ⟨listed, ?_⟩, ?_, ?_⟩
  · obtain ⟨lock, cas, entry, _⟩ := listed
    obtain ⟨_, flight, member, e, trace, acquires⟩ :=
      inv.locks _ _ _ (isLockKey_calloutLockKey context.state.cacheKey) entry
    exact ⟨flight, member, (inv.flights flight member _ e trace acquires).symm⟩
  · intro flight response w' same step
    have later := attended.step idle.queues step
    obtain ⟨delivers, releases, _⟩ := step
    cases delivers with
    | responded split run =>
      obtain ⟨_, free⟩ := inv.responded split run releases
      have still := waiting_onHttpCallResponse.run rfl run
      obtain ⟨its, isIts, listed | placed⟩ :=
        later.waits rootId contextId context ((congrFun₂ still rootId contextId).trans waits) id
      · obtain ⟨lock, cas, entry, _⟩ := listed
        exact absurd entry (same ▸ free _ _)
      · cases Option.some.inj (isIts.symm.trans own)
        exact placed
  · intro n at_ ds w' run
    have counts := countdown_place contextId idle.queues own
    have waiting : Attended h.queueIds nobody w.host w.host ∧ (w.host.waiting rootId contextId).isSome :=
      ⟨attended, Option.isSome_iff_exists.mpr ⟨context, waits⟩⟩
    refine ⟨fun few => ?_, counts.ends run waiting at_⟩
    obtain ⟨⟨_, later⟩, place⟩ := counts.run run waiting at_ few
    exact ⟨later, place⟩

/-! Two requests for one application, the response, and the queue of the second -/

/-- Its queues have different ids. -/
def threadsHost : Host :=
  { quietHost with
    queueIds := fun name =>
      if name = queueName then some 5 else if name = ['1'] then some 6 else if name = ['2'] then some 7 else none }

theorem idle_threadsHost : Idle threadsHost where
  clean := ⟨clean_quietHost.locks, clean_quietHost.apps⟩
  queues := by
    intro a b queueId isA isB
    simp only [threadsHost] at isA isB
    grind
  waiting := fun _ _ => rfl

def askingRun : Prog.Ran HostCall HostCall.Reply Host (CacheFilter × Action) :=
  ((hitFilter 1).onHttpRequestHeaders hitLib 3 hitHeaders).run Host.exec threadsHost

theorem askingRun_out : ∃ e ∈ askingRun.trace, Dispatches e :=
  ⟨⟨.dispatchHttpCall _, .ok 1⟩, List.mem_of_getElem? (rfl : askingRun.trace[5]? = _), _, 1, rfl⟩

def askingFlight : Flight := ⟨hitAsked, askingRun.trace, askingRun_out⟩

def isDispatch : HostCall → Bool
  | .dispatchHttpCall _ => true
  | _ => false

/-- The second request finds the lock held. -/
def parkingRun : Prog.Ran HostCall HostCall.Reply Host (CacheFilter × Action) :=
  ((hitFilter 2).onHttpRequestHeaders hitLib 3 hitHeaders).run Host.exec askingRun.state

theorem parkingRun_silent : ¬∃ e ∈ parkingRun.trace, Dispatches e := by
  have silent : parkingRun.trace.all (fun e => !isDispatch e.1) = true := rfl
  rintro ⟨_, member, call, id, rfl⟩
  exact Bool.false_ne_true (List.all_eq_true.mp silent _ member)

def parkingWorld : World := ⟨parkingRun.state, [askingFlight]⟩

def askingWorld : World := ⟨askingRun.state, [askingFlight]⟩

theorem askingWorld_delivers :
    Delivers ⟨threadsHost, []⟩ (.requestHeaders hitLib 3 (hitFilter 1) hitHeaders) askingWorld :=
  .called rfl askingRun_out

theorem parkingWorld_delivers :
    Delivers askingWorld (.requestHeaders hitLib 3 (hitFilter 2) hitHeaders) parkingWorld :=
  .settled rfl parkingRun_silent

theorem parkingWorld_reached : Delivered Attentive ⟨threadsHost, []⟩ parkingWorld :=
  .next (.next .start askingWorld_delivers ⟨fun _ => ⟨⟨1, rfl⟩, fun _ _ _ => rfl⟩, by rintro _ _ ⟨⟩⟩)
    parkingWorld_delivers ⟨fun _ => ⟨⟨1, rfl⟩, fun _ _ _ => rfl⟩, by rintro _ _ ⟨⟩⟩

def answeringRun : Prog.Ran HostCall HostCall.Reply Host CacheFilter :=
  (hitAsked.onHttpCallResponse (callResponse "200" (fiveHits true 2))).run Host.exec parkingRun.state

def answeringWorld : World := ⟨answeringRun.state, []⟩

theorem answeringWorld_attends :
    Attends parkingWorld (.callResponse askingFlight (callResponse "200" (fiveHits true 2))) answeringWorld := by
  have split : parkingWorld.flights = [] ++ askingFlight :: [] := rfl
  refine ⟨.responded split rfl, ⟨?_, ?_, ?_⟩, by rintro _ _ ⟨⟩⟩
  · rintro ⟨_, _, ⟨⟩⟩
  · rintro a app ⟨_, carried, _⟩ formed
    cases carried
    cases formed
    unfold Apart
    decide
  · rintro _ _ _ _ ⟨⟩

def wakingRun : Prog.Ran HostCall HostCall.Reply Host Unit :=
  ((⟨2, {}⟩ : CacheFilterRoot).onQueueReady 7).run Host.exec answeringRun.state

/-- After the response the second request has an item in the queue of its thread,
and the callback of this queue is the one that takes it off. -/
theorem waiters_served_second :
    (answeringWorld.host.place 7 2).isSome ∧
      ∃ w, Delivers answeringWorld (.queueReady ⟨2, {}⟩ 7) w ∧ w.host.waiting 2 2 = none := by
  constructor
  · have waits : parkingWorld.host.waiting 2 2 = some _ := rfl
    obtain ⟨queueId, own, _, placed, _⟩ := waiters_served idle_threadsHost parkingWorld_reached waits
    cases Option.some.inj (own : some 7 = some queueId)
    exact placed askingFlight _ answeringWorld rfl answeringWorld_attends
  · have reached : Delivered Attentive ⟨threadsHost, []⟩ answeringWorld :=
      .next parkingWorld_reached answeringWorld_attends.1 answeringWorld_attends.2
    have waits : answeringWorld.host.waiting 2 2 = some _ := rfl
    obtain ⟨queueId, own, _, _, turns⟩ := waiters_served idle_threadsHost reached waits
    cases Option.some.inj (own : some 7 = some queueId)
    have waking : Attends answeringWorld (.queueReady ⟨2, {}⟩ 7) ⟨wakingRun.state, []⟩ := by
      refine ⟨.served rfl, trivial, ?_⟩
      rintro _ _ ⟨⟩
      rfl
    obtain ⟨before, d, after, w₁, w₂, split, _, _, run, step, _, gone⟩ :=
      (turns 0 rfl _ _ (.next waking .stop)).2 (by decide)
    cases before with
    | nil =>
      cases split
      cases run
      exact ⟨w₂, step.1, gone⟩
    | cons first before => simp at split

end ThreescaleCache
