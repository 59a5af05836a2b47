import ThreescaleCache.Serving
import ThreescaleCache.UsageLimits

namespace ThreescaleCache
open Interaction

/-! Requests for an application that is stored under the key `K`, each in its
own context: the callback of its headers, and that of its response. Beside
them threads serve their queues. -/

inductive Entry where
  | request (lib : ThirdParty) (rounds : Nat) (f : CacheFilter) (headers : Str → Option Str)
  | queueReady (root : CacheFilterRoot) (queueId : Nat)

inductive Served where
  | requested (f : CacheFilter) (action : Action)
  | finished

def Entry.program : Entry → HostProg Served
  | .request lib rounds f headers =>
    f.onHttpRequestHeaders lib rounds headers >>= fun r => .done (.requested r.1 r.2)
  | .queueReady root queueId => root.onQueueReady queueId >>= fun _ => .done .finished

/-- The application formed from the response is the one with the key `K`. -/
def Names (K : Str) (response : CallResponse) : Prop :=
  ∀ a app, response.body = some (.parsed (.status a)) → rebuilt a = some app →
    app.cacheKey.asString = K

variable {ι : Type} [DecidableEq ι]

abbrev ServingConfig (ι : Type) := Config ι HostCall HostCall.Reply Host Served

/-- A response comes to contexts with a call out. -/
def servingParties (ι : Type) (K : Str) : Parties ι HostCall HostCall.Reply Host Served where
  exec := fun _ => Host.exec
  env := Host.Env
  resume := fun i result t p => ∃ f action response, result = .requested f action ∧
    Did t i Dispatches ∧ Names K response ∧
    p = f.onHttpCallResponse response >>= fun _ => .done .finished

def servingStart (entries : ι → Entry) (h : Host) : ServingConfig ι where
  shared := h
  procs := fun i => (entries i).program
  trace := []

/-- All applications are stored under the keys made of their own ids. -/
def Filed (d : SharedData) : Prop := d.Stored fun key app => app.cacheKey.asString = key

/-- No application is stored under the key. -/
def Absent (K : Str) (d : SharedData) : Prop := d.Stored fun key _ => key ≠ K

/-- A context that was given a lock and is still on its way to make the
callout, or to answer the request when the response comes. -/
structure AtWork (s : ServingConfig ι) (i : ι) : Prop where
  granted : ∃ key, Did s.trace i (Acquires key)
  unanswered : ¬Did s.trace i Answers
  active : (∃ c k, s.procs i = .call c k) ∨
    ((∃ f action, s.procs i = .done (.requested f action)) ∧ Did s.trace i Dispatches)

/-- A lock is given only while the application is not stored and no other
context fetches it. -/
def soleFetch (K : Str) (s s' : ServingConfig ι) : Prop :=
  ∀ i e key, s'.trace = s.trace ++ [(i, e)] → Acquires key e →
    Absent K s.shared.shared ∧ ∀ j, j ≠ i → ¬AtWork s j

/-! What a call does to the applications in shared data -/

variable {first : Application → Prop} {safe : Str → Prop} {ℓ : Progress} {h : Host}

/-- Everything read so far was filed under its own key, and is still pinned. -/
def ReadsFiled (ℓ : Progress) (d : SharedData) : Prop :=
  ∀ key app cas, (key, app, cas) ∈ ℓ.reads →
    app.cacheKey.asString = key ∧ d.Pins key (some (.application app)) cas

theorem rebuilt_cacheKey {response : AuthorizationStatus} {app : Application} {appKeys : ListAppKeys}
    {appId : AppId} {serviceId : ServiceId}
    (ids : CacheFilter.authResponseIds response = .ok (appKeys, appId, serviceId))
    (formed : rebuilt response = some app) : app.cacheKey = ⟨serviceId, .appId appId none⟩ := by
  obtain ⟨state, _, same⟩ := Option.bind_eq_some_iff.mp ((rebuilt_eq ids).symm.trans formed)
  cases Option.some.inj same
  rfl

theorem Filed.exec {c : HostCall} (filed : Filed h.shared) (may : ServingCall first safe ℓ c) :
    Filed (Host.exec c h).2.shared := by
  refine Host.exec_shared filed fun key value cas same => SharedData.Stored.put filed ?_
  intro app same
  subst same
  subst same
  obtain ⟨before, _, _, rfl, _, rfl | passes⟩ := may.application_inv
  · rfl
  · rw [passes.cacheKey]

theorem ReadsFiled.exec {c : HostCall} (reads : ReadsFiled ℓ h.shared) :
    ReadsFiled ℓ (Host.exec c h).2.shared :=
  Host.exec_shared reads fun _ _ _ _ key app cas member =>
    ⟨(reads key app cas member).1, (reads key app cas member).2.put _ _⟩

theorem ReadsFiled.next {c : HostCall} (reads : ReadsFiled ℓ h.shared) (filed : Filed h.shared) :
    ReadsFiled (ℓ.next ⟨c, (Host.exec c h).1⟩) (Host.exec c h).2.shared := by
  have now : ReadsFiled (ℓ.next ⟨c, (Host.exec c h).1⟩) h.shared := by
    intro key app cas member
    rcases Progress.mem_reads_next member with old | read
    · exact reads key app cas old
    · have entry := exec_read read
      exact ⟨filed key app cas entry, SharedData.pins_of_entry entry⟩
  exact now.exec

/-- An application with a CAS other than 0 is written over one only. So none
is stored under `K` by a call, except by the first write of a fetch. -/
theorem Absent.exec {K : Str} {c : HostCall} (absent : Absent K h.shared)
    (reads : ReadsFiled ℓ h.shared) (may : ServingCall first safe ℓ c) :
    Absent K (Host.exec c h).2.shared ∨ (ℓ.dispatched = true ∧ ℓ.answered = false ∧
      (ℓ.next ⟨c, (Host.exec c h).1⟩).wrote = true) := by
  by_cases write : ∃ key app cas, c = .setSharedData key (some (.application app)) cas
  · obtain ⟨key, app', cas, rfl⟩ := write
    obtain ⟨app, n, rfl, rfl, ⟨key, read⟩ | ⟨rfl, _, dispatched, answered, _⟩, _⟩ :=
      may.application_inv
    · left
      obtain ⟨own, pins⟩ := reads key app n read
      subst own
      rcases pins.set (some (.application app')) with ⟨entry, set⟩ | set
      · simp only [Host.exec, set]
        exact SharedData.Stored.put absent fun _ _ => absent _ app n entry
      · simp only [Host.exec, set]
        exact absent
    · right
      refine ⟨dispatched, answered, ?_⟩
      have zero : (some 0 : Option Nat).getD 0 = 0 := rfl
      simp only [Host.exec, h.shared.set_overwrite _ _ zero]
      exact Progress.wrote_first
  · left
    refine Host.exec_shared absent fun key value cas same => SharedData.Stored.put absent ?_
    intro app same
    subst same
    exact absurd ⟨key, app, cas, same⟩ write

/-! The invariant -/

structure FetchInv (K : Str) (s : ServingConfig ι) (progress : ι → Progress) : Prop where
  filed : Filed s.shared.shared
  reads : ∀ i, ReadsFiled (progress i) s.shared.shared
  granted : ∀ i key, (progress i).granted = some key → Did s.trace i (Acquires key)
  dispatched : ∀ i, (progress i).dispatched = true ↔ Did s.trace i Dispatches
  answered : ∀ i, (progress i).answered = true ↔ Did s.trace i Answers
  called : ∀ i, (progress i).dispatched = true → (progress i).granted.isSome
  sole : ∀ i j, AtWork s i → AtWork s j → i = j
  first : ∀ i, AtWork s i → Absent K s.shared.shared ∨ (progress i).wrote = true

/-- A call makes nobody else set to work, and its party only by giving it a lock. -/
theorem AtWork.of_called {s : ServingConfig ι} {K : Str} {i j : ι} {c : HostCall}
    {k : c.Reply → HostProg Served} (at_ : s.procs i = .call c k)
    (work : AtWork (s.called (servingParties ι K) i c k) j) :
    AtWork s j ∨ (j = i ∧ ∃ key, Acquires key ⟨c, (Host.exec c s.shared).1⟩) := by
  obtain ⟨⟨key, granted⟩, unanswered, active⟩ := work
  have quiet : ¬Did s.trace j Answers := fun old => unanswered old.mono
  by_cases same : j = i
  · subst same
    rcases did_append.mp granted with old | ⟨_, new⟩
    · exact Or.inl ⟨⟨key, old⟩, quiet, Or.inl ⟨c, k, at_⟩⟩
    · exact Or.inr ⟨rfl, key, new⟩
  · have before : ∀ {A : HostEvent → Prop},
        Did (s.called (servingParties ι K) i c k).trace j A → Did s.trace j A :=
      fun did => (did_append.mp did).resolve_right fun new => same new.1
    have procs : (s.called (servingParties ι K) i c k).procs j = s.procs j :=
      Function.update_of_ne same ..
    rw [procs] at active
    exact Or.inl ⟨⟨key, before granted⟩, quiet, active.imp_right (And.imp_right before)⟩

/-- A response comes to a context that is at work, if it is unanswered. -/
theorem AtWork.of_resumed {s : ServingConfig ι} {i j : ι} {f : CacheFilter} {action : Action}
    {p : HostProg Served} (at_ : s.procs i = .done (.requested f action))
    (dispatched : Did s.trace i Dispatches) (work : AtWork (s.resumed i p) j) : AtWork s j := by
  obtain ⟨granted, unanswered, active⟩ := work
  by_cases same : j = i
  · subst same
    exact ⟨granted, unanswered, Or.inr ⟨⟨f, action, at_⟩, dispatched⟩⟩
  · have procs : (s.resumed i p).procs j = s.procs j := Function.update_of_ne same ..
    rw [procs] at active
    exact ⟨granted, unanswered, active⟩

/-- What a call adds to the progress of a party and to the trace. -/
theorem tracked_called {s : ServingConfig ι} {K : Str} {progress : ι → Progress} {i j : ι}
    {c : HostCall} {k : c.Reply → HostProg Served} {A : HostEvent → Prop} (p : Progress → Bool)
    (next : ∀ ℓ : Progress, p (ℓ.next ⟨c, (Host.exec c s.shared).1⟩) = true ↔
      p ℓ = true ∨ A ⟨c, (Host.exec c s.shared).1⟩)
    (before : p (progress j) = true ↔ Did s.trace j A) :
    p (Function.update progress i ((progress i).next ⟨c, (Host.exec c s.shared).1⟩) j) = true ↔
      Did (s.called (servingParties ι K) i c k).trace j A := by
  rw [Config.called, did_append]
  by_cases same : j = i
  · subst same
    rw [Function.update_self, next, before]
    simp only [true_and]
    rfl
  · rw [Function.update_of_ne same, before]
    simp only [same, false_and, or_false]

omit [DecidableEq ι] in
theorem FetchInv.atWork {s : ServingConfig ι} {K : Str} {progress : ι → Progress} {i : ι}
    {c : HostCall} {k : c.Reply → HostProg Served} (inv : FetchInv K s progress)
    (at_ : s.procs i = .call c k) (dispatched : (progress i).dispatched = true)
    (answered : (progress i).answered = false) : AtWork s i := by
  obtain ⟨key, granted⟩ := Option.isSome_iff_exists.mp (inv.called i dispatched)
  refine ⟨⟨key, inv.granted i key granted⟩, fun did => ?_, Or.inl ⟨c, k, at_⟩⟩
  rw [(inv.answered i).mpr did] at answered
  cases answered

theorem FetchInv.call {s : ServingConfig ι} {K : Str} {progress : ι → Progress} {i : ι}
    {c : HostCall} {k : c.Reply → HostProg Served} (inv : FetchInv K s progress)
    (at_ : s.procs i = .call c k) (may : ServingCall first safe (progress i) c)
    (guard : soleFetch K s (s.called (servingParties ι K) i c k)) :
    FetchInv K (s.called (servingParties ι K) i c k)
      (Function.update progress i ((progress i).next ⟨c, (Host.exec c s.shared).1⟩)) where
  filed := inv.filed.exec may
  reads := by
    intro j
    by_cases same : j = i
    · subst same
      rw [Function.update_self]
      exact (inv.reads j).next inv.filed
    · rw [Function.update_of_ne same]
      exact (inv.reads j).exec
  granted := by
    intro j key granted
    by_cases same : j = i
    · subst same
      rw [Function.update_self] at granted
      rcases Progress.granted_next granted with old | new
      · exact (inv.granted j key old).mono
      · exact did_append.mpr (Or.inr ⟨rfl, new⟩)
    · rw [Function.update_of_ne same] at granted
      exact (inv.granted j key granted).mono
  dispatched := fun j => tracked_called _ (fun _ => Progress.dispatched_next) (inv.dispatched j)
  answered := fun j => tracked_called _ (fun _ => Progress.answered_next) (inv.answered j)
  called := by
    intro j
    by_cases same : j = i
    · subst same
      rw [Function.update_self]
      intro dispatched
      rcases Progress.dispatched_next.mp dispatched with old | ⟨call, id, new⟩
      · exact Progress.granted_kept (inv.called j old)
      · have is : c = .dispatchHttpCall call := congrArg Sigma.fst new
        subst is
        exact Progress.granted_kept may.dispatch_inv
    · rw [Function.update_of_ne same]
      exact inv.called j
  sole := by
    intro j j' work work'
    rcases AtWork.of_called at_ work with old | ⟨rfl, key, new⟩
    · rcases AtWork.of_called at_ work' with old' | ⟨rfl, key, new⟩
      · exact inv.sole j j' old old'
      · by_contra other
        exact (guard _ _ key rfl new).2 j other old
    · rcases AtWork.of_called at_ work' with old' | ⟨rfl, _, _⟩
      · by_contra other
        exact (guard _ _ key rfl new).2 j' (Ne.symm other) old'
      · rfl
  first := by
    intro j work
    have fromAbsent : Absent K s.shared.shared → AtWork s j ∨ j = i →
        Absent K (Host.exec c s.shared).2.shared ∨
          (Function.update progress i ((progress i).next ⟨c, (Host.exec c s.shared).1⟩) j).wrote = true := by
      intro absent who
      refine (absent.exec (inv.reads i) may).imp_right fun ⟨dispatched, answered, wrote⟩ => ?_
      have same : j = i := who.elim
        (fun old => inv.sole j i old (inv.atWork at_ dispatched answered)) id
      rw [same, Function.update_self]
      exact wrote
    rcases AtWork.of_called at_ work with old | ⟨mine, key, new⟩
    · rcases inv.first j old with absent | wrote
      · exact fromAbsent absent (Or.inl old)
      · right
        by_cases same : j = i
        · subst same
          rw [Function.update_self]
          exact Progress.wrote_next wrote
        · rw [Function.update_of_ne same]
          exact wrote
    · exact fromAbsent (guard _ _ key rfl new).1 (Or.inr mine)

/-- What a callback leaves to the next one. -/
def Progress.Left (ℓ : Progress) : Served → Prop
  | .requested f _ => Handed False ℓ f
  | .finished => True

theorem Entry.follows {K : Str} (entry : Entry) :
    Follows (serving (fun app => app.cacheKey.asString = K) fun _ => True) Progress.Left entry.program {} := by
  cases entry with
  | request lib rounds f headers =>
    exact follows_bind.mpr ((serving_onHttpRequestHeaders ⟨rfl, rfl, rfl, rfl⟩).mono fun _ _ handed =>
      handed.imp False.elim)
  | queueReady root queueId =>
    exact follows_bind.mpr (serving_onQueueReady.mono fun _ _ _ => trivial)

theorem fetch_preserved (K : Str) :
    Preserved (servingParties ι K) (soleFetch K)
      (fun _ => serving (fun app => app.cacheKey.asString = K) fun _ => True)
      (fun _ => Progress.Left) (FetchInv K) where
  call := fun _ _ _ _ _ inv at_ may guard => ⟨_, rfl, inv.call at_ may guard⟩
  resume := by
    intro s progress i _ _ inv at_ left fact _
    obtain ⟨f, action, response, rfl, dispatched, names, rfl⟩ := fact
    have called := left.called ((inv.dispatched i).mpr dispatched)
    have suits : Suits (fun app => app.cacheKey.asString = K) (fun _ => True) f response :=
      ⟨fun a app carries formed => names a app carries.body formed, fun _ _ _ _ _ => trivial⟩
    refine ⟨progress i, follows_bind.mpr ((serving_onHttpCallResponse called suits).mono
      fun _ _ _ => trivial), ?_⟩
    rw [Function.update_eq_self]
    have before : ∀ {p} j, AtWork (s.resumed i p) j → AtWork s j :=
      fun j work => AtWork.of_resumed at_ dispatched work
    exact ⟨inv.filed, inv.reads, inv.granted, inv.dispatched, inv.answered, inv.called,
      fun j j' work work' => inv.sole j j' (before j work) (before j' work'),
      fun j work => inv.first j (before j work)⟩
  env := by
    intro s progress _ inv fact
    obtain ⟨clock, dispatch, rfl⟩ := fact
    exact ⟨inv.filed, inv.reads, inv.granted, inv.dispatched, inv.answered, inv.called,
      fun j j' work work' => inv.sole j j' ⟨work.1, work.2, work.3⟩ ⟨work'.1, work'.2, work'.3⟩,
      fun j work => inv.first j ⟨work.1, work.2, work.3⟩⟩

omit [DecidableEq ι] in
theorem fetchInv_start {K : Str} {entries : ι → Entry} {h : Host} (filed : Filed h.shared) :
    FetchInv K (servingStart entries h) fun _ => {} where
  filed := filed
  reads := fun _ _ _ _ member => absurd member List.not_mem_nil
  granted := by rintro _ _ ⟨⟩
  dispatched := fun _ => ⟨(by rintro ⟨⟩), fun ⟨_, member, _⟩ => absurd member List.not_mem_nil⟩
  answered := fun _ => ⟨(by rintro ⟨⟩), fun ⟨_, member, _⟩ => absurd member List.not_mem_nil⟩
  called := by rintro _ ⟨⟩
  sole := fun _ _ work => absurd work.granted.choose_spec (by rintro ⟨_, member, _⟩; cases member)
  first := fun _ work => absurd work.granted.choose_spec (by rintro ⟨_, member, _⟩; cases member)

/-- In a run in which a lock is given only while the application is not stored
and no other context fetches it, a write with the CAS 0 meets no stored application. -/
theorem firstWrite_absent {K : Str} {entries : ι → Entry} {h : Host} {s : ServingConfig ι}
    (filed : Filed h.shared)
    (reach : Reach (servingParties ι K) (soleFetch K) (servingStart entries h) s) {i : ι} {key : Str}
    {app : Application} {k : Except Status Unit → HostProg Served}
    (at_ : s.procs i = .call (.setSharedData key (some (.application app)) (some 0)) k) :
    ∀ other cas, s.shared.shared.entry key ≠ some (some (.application other), cas) := by
  intro other cas entry
  obtain ⟨progress, inv, follows⟩ := reach.invariant (fetch_preserved K)
    ⟨fun _ => {}, fetchInv_start filed, fun i => (entries i).follows⟩
  have may := follows i
  rw [at_] at may
  obtain ⟨before, n, zero, rfl, ⟨key, read⟩ | ⟨_, named, dispatched, answered, wrote⟩, _⟩ :=
    may.1.application_inv
  · cases Option.some.inj zero
    exact absurd (inv.reads i key before 0 read).2.1 (Nat.lt_irrefl 0)
  · rcases inv.first i (inv.atWork at_ dispatched answered) with absent | written
    · exact absent _ other cas entry named
    · rw [wrote] at written
      cases written

/-! Requests for the application with the id `a` of the service `s` -/

def hitEntry (contextId : Nat) : Entry := .request hitLib 3 (hitFilter contextId) hitHeaders

def hitResponse : CallResponse :=
  ⟨some "200".toList, some (.parsed (.status (reportedTwice [dayUsage])))⟩

theorem hitResponse_names : Names hitKey hitResponse := by
  intro a app is formed
  cases is
  rw [rebuilt_cacheKey rfl formed]
  rfl

/-- The response comes for the request of the party `i`. -/
def respond (s : ServingConfig ι) (i : ι) : ServingConfig ι :=
  match s.procs i with
  | .done (.requested f _) =>
    s.resumed i (f.onHttpCallResponse hitResponse >>= fun _ => .done .finished)
  | _ => s

def steps (i : ι) (n : Nat) (s : ServingConfig ι) : ServingConfig ι :=
  s.play (servingParties ι hitKey) (List.replicate n i)

theorem respond_reach {guard : ServingConfig ι → ServingConfig ι → Prop} {init s : ServingConfig ι}
    {i : ι} (reach : Reach (servingParties ι hitKey) guard init s)
    (dispatched : Did s.trace i Dispatches) (allowed : ∀ p, guard s (s.resumed i p)) :
    Reach (servingParties ι hitKey) guard init (respond s i) := by
  unfold respond
  split
  · rename_i f action at_
    exact .next reach (.resume at_ ⟨f, action, hitResponse, rfl, dispatched, hitResponse_names, rfl⟩)
      (allowed _)
  · exact reach

omit [DecidableEq ι] in
theorem dispatches_at {t : List (ι × HostEvent)} {i : ι} {call : HttpCall} {id : Nat} (n : Nat)
    (here : t[n]? = some (i, ⟨.dispatchHttpCall call, .ok id⟩)) : Did t i Dispatches :=
  ⟨_, List.mem_of_getElem? here, call, id, rfl⟩

theorem filed_empty : Filed SharedData.empty := by
  rintro _ _ _ ⟨⟩

def fetchStart : ServingConfig Bool :=
  servingStart (fun i => hitEntry (if i then 2 else 1)) quietHost

/-- One request fetches the application while another one waits, and is about
to write it for the first time. -/
def fetching : ServingConfig Bool := steps false 4 (respond (steps true 6 (steps false 6 fetchStart)) false)

def unstored (d : SharedData) : Bool :=
  match d.value hitKey with
  | some (.application _) => false
  | _ => true

/-- A call that gives the caller the lock. -/
def givesLock : HostCall → Bool
  | .setSharedData _ (some (.calloutLock v)) _ => v.waiters.isEmpty
  | _ => false

/-- The next call of the party gives it no lock, or the first one ever given. -/
def calm (s : ServingConfig ι) (i : ι) : Bool :=
  match s.procs i with
  | .call c _ => !givesLock c || (unstored s.shared.shared && s.trace.all fun e => !givesLock e.2.1)
  | _ => true

theorem givesLock_of_acquires {key : Str} {e : HostEvent} (acquires : Acquires key e) : givesLock e.1 = true := by
  obtain ⟨v, cas, free, rfl⟩ := acquires
  exact List.isEmpty_iff.mpr free

theorem unstored_absent {d : SharedData} (none_ : unstored d = true) : Absent hitKey d := by
  intro key app cas entry same
  subst same
  rw [unstored, SharedData.value, SharedData.get_present entry] at none_
  cases none_

theorem soleFetch_of_calm {s : ServingConfig ι} {i : ι} (quiet : calm s i = true) {c : HostCall}
    {k : c.Reply → HostProg Served} (at_ : s.procs i = .call c k) :
    soleFetch hitKey s (s.called (servingParties ι hitKey) i c k) := by
  intro j e key added acquires
  obtain ⟨rfl, rfl⟩ := Prod.mk.inj (List.singleton_inj.mp (List.append_cancel_left added))
  have gives : givesLock c = true := givesLock_of_acquires acquires
  simp only [calm, at_, gives, Bool.not_true, Bool.false_or, Bool.and_eq_true] at quiet
  obtain ⟨none_, first⟩ := quiet
  refine ⟨unstored_absent none_, fun other _ work => ?_⟩
  obtain ⟨_, e, member, acquired⟩ := work.granted
  have before := List.all_eq_true.mp first _ member
  rw [givesLock_of_acquires acquired] at before
  cases before

omit [DecidableEq ι] in
theorem soleFetch_of_untraced {K : Str} {s s' : ServingConfig ι} (same : s'.trace = s.trace) :
    soleFetch K s s' := by
  intro j e key added
  exact absurd (congrArg List.length (added.symm.trans same)) (by simp)

theorem steps_reach {init s : ServingConfig ι}
    (reach : Reach (servingParties ι hitKey) (soleFetch hitKey) init s) (i : ι) (n : Nat)
    (quiet : ∀ m < n, calm (steps i m s) i = true) :
    Reach (servingParties ι hitKey) (soleFetch hitKey) init (steps i n s) := by
  refine reach.play_guarded _ fun m short c k at_ => ?_
  have within : m < n := by rwa [List.length_replicate] at short
  have prefix_ : (List.replicate n i).take m = List.replicate m i := by
    rw [List.take_replicate, Nat.min_eq_left (Nat.le_of_lt within)]
  simp only [List.getElem_replicate, prefix_] at at_ ⊢
  exact soleFetch_of_calm (quiet m within) at_

theorem firstWrite_absent_fetching : (fetching.shared.waiting 2 2).isSome ∧ ∃ app k,
    fetching.procs false = .call (.setSharedData hitKey (some (.application app)) (some 0)) k ∧
    ∀ other cas, fetching.shared.shared.entry hitKey ≠ some (some (.application other), cas) := by
  have asked := steps_reach .start false 6 (by decide : ∀ m < 6, calm (steps false m fetchStart) false = true)
  have waiting := steps_reach asked true 6
    (by decide : ∀ m < 6, calm (steps true m (steps false 6 fetchStart)) true = true)
  have answered := respond_reach waiting (dispatches_at 5 rfl) fun p => soleFetch_of_untraced rfl
  have whole := steps_reach answered false 4 (by decide : ∀ m < 4,
    calm (steps false m (respond (steps true 6 (steps false 6 fetchStart)) false)) false = true)
  have at_ : ∃ app k,
      fetching.procs false = .call (.setSharedData hitKey (some (.application app)) (some 0)) k :=
    ⟨_, _, rfl⟩
  obtain ⟨app, k, at_⟩ := at_
  exact ⟨rfl, app, k, at_, firstWrite_absent filed_empty whole at_⟩

/-- One request misses the cache; then another one fetches the application,
debits it and frees the lock; and then the first one acquires the lock. -/
def refetched : ServingConfig Bool :=
  steps true 4 (respond (steps true 6 (steps false 30 (respond (steps false 6 (steps true 1
    fetchStart)) false))) true)

/-- Its first write is about to overwrite the application that is stored by now. -/
theorem not_firstWrite_absent_refetched :
    Reach (servingParties Bool hitKey) anyStep fetchStart refetched ∧ Filed quietHost.shared ∧
    ∃ app k other cas,
      refetched.procs true = .call (.setSharedData hitKey (some (.application app)) (some 0)) k ∧
      refetched.shared.shared.entry hitKey = some (some (.application other), cas) := by
  refine ⟨?_, filed_empty, _, _, _, _, rfl, rfl⟩
  have fetched : Reach (servingParties Bool hitKey) anyStep fetchStart
      (steps true 6 (steps false 30 (respond (steps false 6 (steps true 1 fetchStart)) false))) :=
    ((respond_reach ((Reach.play _ .start).play _) (dispatches_at 6 rfl) fun _ => trivial).play _).play _
  exact (respond_reach fetched (dispatches_at 27 rfl) fun _ => trivial).play _

end ThreescaleCache
