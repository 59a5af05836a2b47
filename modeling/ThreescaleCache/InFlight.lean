import ThreescaleCache.FirstWrite

namespace ThreescaleCache
open Interaction

/-! Callbacks that are run to their end, one after the other -/

/-- A context whose authorize call is out, with the calls of its request callback. -/
structure Flight where
  context : CacheFilter
  trace : List HostEvent
  out : ∃ e ∈ trace, Dispatches e

structure World where
  host : Host
  flights : List Flight

inductive Delivery where
  | requestHeaders (lib : ThirdParty) (rounds : Nat) (f : CacheFilter) (headers : Str → Option Str)
  | callResponse (flight : Flight) (response : CallResponse)
  | queueReady (root : CacheFilterRoot) (queueId : Nat)
  | surroundings

/-- A response is delivered once, to the context with the call. -/
inductive Delivers : World → Delivery → World → Prop
  | called {w lib rounds f headers t f' action h}
      (run : (f.onHttpRequestHeaders lib rounds headers).run Host.exec w.host =
        ⟨t, .done (f', action), h⟩) (out : ∃ e ∈ t, Dispatches e) :
      Delivers w (.requestHeaders lib rounds f headers) ⟨h, ⟨f', t, out⟩ :: w.flights⟩
  | settled {w lib rounds f headers t f' action h}
      (run : (f.onHttpRequestHeaders lib rounds headers).run Host.exec w.host =
        ⟨t, .done (f', action), h⟩) (silent : ¬∃ e ∈ t, Dispatches e) :
      Delivers w (.requestHeaders lib rounds f headers) ⟨h, w.flights⟩
  | responded {w flight response before after t f' h} (split : w.flights = before ++ flight :: after)
      (run : (flight.context.onHttpCallResponse response).run Host.exec w.host = ⟨t, .done f', h⟩) :
      Delivers w (.callResponse flight response) ⟨h, before ++ after⟩
  | served {w root queueId t h}
      (run : (CacheFilterRoot.onQueueReady root queueId).run Host.exec w.host = ⟨t, .done (), h⟩) :
      Delivers w (.queueReady root queueId) ⟨h, w.flights⟩
  | moved {w h} (env : Host.Env w.host h) : Delivers w .surroundings ⟨h, w.flights⟩

inductive Delivered (guard : World → Delivery → Prop) (init : World) : World → Prop
  | start : Delivered guard init init
  | next {w d w'} : Delivered guard init w → Delivers w d w' → guard w d → Delivered guard init w'

/-- Some context with a call out was given the lock. -/
def Owned (flights : List Flight) (key : Str) : Prop :=
  ∃ flight ∈ flights, ∃ e ∈ flight.trace, Acquires key e

/-- A held lock has a callout in flight. -/
def LocksInFlight (w : World) : Prop :=
  ∀ (k : CacheKey) v cas, w.host.shared.entry (calloutLockKey k) = some (some v, cas) →
    Owned w.flights (calloutLockKey k)

/-- The key is not of the form of lock keys. -/
def Apart (key : Str) : Prop := isLockKey key = false

/-- A request that is given a lock can make its call, no response is an
authorization error, and neither the user_keys that are mapped nor the keys of
the applications that are formed look like lock keys. -/
def Releases (w : World) : Delivery → Prop
  | .requestHeaders lib rounds f headers =>
    (∃ key, ∃ e ∈ ((f.onHttpRequestHeaders lib rounds headers).run Host.exec w.host).trace,
      Acquires key e) →
      (∃ id, w.host.dispatch = .ok id) ∧
        ∀ data, CacheFilter.getRequestData lib headers = .ok data → lib.Builds data
  | .callResponse flight response =>
    ¬ErrorReply response ∧
      Suits (fun app => Apart app.cacheKey.asString) Apart flight.context response
  | _ => True

/-! One callback -/

abbrev servingApart : HostProtocol Progress := serving (fun app => Apart app.cacheKey.asString) Apart

/-- What holds while a callback runs, with the calls of the other contexts out. -/
structure SerialInv (others : List Flight) (answer : Except Status Nat) (h : Host) (ℓ : Progress) :
    Prop where
  dispatch : h.dispatch = answer
  locks : ∀ key v cas, isLockKey key = true → h.shared.entry key = some (some v, cas) →
    (∃ lock, v = .calloutLock lock) ∧ (Owned others key ∨ ℓ.granted = some key)
  apps : h.shared.Stored fun _ app => Apart app.cacheKey.asString
  reads : ∀ key app cas, (key, app, cas) ∈ ℓ.reads → Apart app.cacheKey.asString
  held : ∀ key ∈ ℓ.held, isLockKey key = true → ∃ v cas, h.shared.entry key = some (some v, cas)
  vacant : ∀ key v cas, ℓ.vacant = some key → h.shared.entry key ≠ some (some v, cas)
  strange : ℓ.strange = false
  refused : ℓ.refused = true → ∃ e, answer = .error e

variable {others : List Flight} {answer : Except Status Nat} {h : Host} {ℓ ℓ' : Progress}

theorem SerialInv.read (inv : SerialInv others answer h ℓ) (key : Str) :
    SerialInv others answer h (ℓ.next ⟨.getSharedData key, .ok (h.shared.get key)⟩) := by
  cases here : h.shared.entry key with
  | none =>
    rw [SharedData.get_absent here]
    refine ⟨inv.dispatch, inv.locks, inv.apps, inv.reads, inv.held, ?_, inv.strange, inv.refused⟩
    rintro _ v cas ⟨⟩ entry
    rw [here] at entry
    cases entry
  | some pair =>
    obtain ⟨value, cas⟩ := pair
    rw [SharedData.get_present here]
    have usual : ∀ v : SharedValue, value = some v → (∀ lock, v ≠ .calloutLock lock) → Apart key := by
      intro v same other
      subst same
      by_contra isKey
      obtain ⟨⟨lock, same⟩, _⟩ := inv.locks key v cas (Bool.of_not_eq_false isKey) here
      exact other lock same
    have held : ∀ v : SharedValue, value = some v → ∀ other ∈ key :: ℓ.held, isLockKey other = true →
        ∃ v cas, h.shared.entry other = some (some v, cas) := by
      intro v same other member isKey
      subst same
      rcases List.mem_cons.mp member with rfl | old
      · exact ⟨v, cas, here⟩
      · exact inv.held other old isKey
    match value, here, usual, held with
    | none, here, _, _ =>
      refine ⟨inv.dispatch, inv.locks, inv.apps, inv.reads, inv.held, ?_, inv.strange, inv.refused⟩
      rintro _ v cas' ⟨⟩ entry
      rw [here] at entry
      cases entry
    | some (.calloutLock lock), _, _, held =>
      exact ⟨inv.dispatch, inv.locks, inv.apps, inv.reads, held _ rfl, inv.vacant, inv.strange, inv.refused⟩
    | some (.application app), here, usual, held =>
      have other : isLockKey key = false := usual _ rfl (by rintro _ ⟨⟩)
      refine ⟨inv.dispatch, inv.locks, inv.apps, fun key' app' cas' member => ?_, held _ rfl, inv.vacant,
        by simp [Progress.next, other, inv.strange], inv.refused⟩
      rcases List.mem_cons.mp member with same | old
      · cases same
        exact inv.apps key app cas here
      · exact inv.reads key' app' cas' old
    | some (.appId _), _, usual, held | some (.memoryCounter _), _, usual, held =>
      have other : isLockKey key = false := usual _ rfl (by rintro _ ⟨⟩)
      exact ⟨inv.dispatch, inv.locks, inv.apps, inv.reads, held _ rfl, inv.vacant,
        by simp [Progress.next, other, inv.strange], inv.refused⟩

/-- What a write has to bring along. -/
structure Fits (others : List Flight) (key : Str) (value : Option SharedValue) (ℓ ℓ' : Progress) :
    Prop where
  lock : ∀ v, isLockKey key = true → value = some v →
    (∃ lock, v = .calloutLock lock) ∧ (Owned others key ∨ ℓ'.granted = some key)
  granted : ∀ other, other ≠ key → ℓ.granted = some other → ℓ'.granted = some other
  app : ∀ app, value = some (.application app) → Apart app.cacheKey.asString
  reads : ℓ'.reads = ℓ.reads
  held : ∀ other ∈ ℓ'.held, other ∈ ℓ.held ∧ value ≠ none
  vacant : ∀ other, ℓ'.vacant = some other → other = key ∧ value = none
  strange : ℓ'.strange = ℓ.strange
  refused : ℓ'.refused = ℓ.refused

theorem SerialInv.put (inv : SerialInv others answer h ℓ) {key : Str} {value : Option SharedValue}
    (fits : Fits others key value ℓ ℓ') :
    SerialInv others answer { h with shared := h.shared.put key value } ℓ' where
  dispatch := inv.dispatch
  locks := by
    intro other v cas isKey entry
    by_cases same : other = key
    · subst same
      rw [h.shared.put_entry_self] at entry
      cases Option.some.inj entry
      exact fits.lock v isKey rfl
    · rw [h.shared.put_entry_ne value same] at entry
      obtain ⟨lock, owner⟩ := inv.locks other v cas isKey entry
      exact ⟨lock, owner.imp_right (fits.granted other same)⟩
  apps := inv.apps.put fits.app
  reads := by
    rw [fits.reads]
    exact inv.reads
  held := by
    intro other member isKey
    obtain ⟨old, present⟩ := fits.held other member
    by_cases same : other = key
    · subst same
      obtain ⟨v, rfl⟩ := Option.ne_none_iff_exists'.mp present
      exact ⟨v, _, h.shared.put_entry_self other _⟩
    · rw [h.shared.put_entry_ne value same]
      exact inv.held other old isKey
  vacant := by
    intro other v cas vacant entry
    obtain ⟨rfl, rfl⟩ := fits.vacant other vacant
    rw [h.shared.put_entry_self] at entry
    cases Option.some.inj entry
  strange := fits.strange.trans inv.strange
  refused := by
    rw [fits.refused]
    exact inv.refused

/-- A write succeeds, or nothing changes. -/
theorem SerialInv.set (inv : SerialInv others answer h ℓ) {key : Str} {value : Option SharedValue}
    {cas : Option Nat} (fits : Fits others key value ℓ (ℓ.next ⟨.setSharedData key value cas, .ok ()⟩))
    (refused : ∀ e, ℓ.next ⟨.setSharedData key value cas, .error e⟩ = ℓ) :
    SerialInv others answer (Host.exec (.setSharedData key value cas) h).2
      (ℓ.next ⟨.setSharedData key value cas, (Host.exec (.setSharedData key value cas) h).1⟩) := by
  rcases h.shared.set_cases key value cas with put | mismatch
  · simp only [Host.exec, put]
    exact inv.put fits
  · simp only [Host.exec, mismatch, refused]
    exact inv

theorem apart_counter : Apart sharedMemoryCounterKey := by
  unfold Apart
  decide

/-- A write of something else than a lock, under a key of another form. -/
theorem Fits.apart {key : Str} {value : SharedValue} (isApart : Apart key)
    (app : ∀ app, value = .application app → Apart app.cacheKey.asString)
    (granted : ℓ'.granted = ℓ.granted) (reads : ℓ'.reads = ℓ.reads) (held : ℓ'.held = ℓ.held)
    (vacant : ℓ'.vacant = none) (strange : ℓ'.strange = ℓ.strange) (refused : ℓ'.refused = ℓ.refused) :
    Fits others key (some value) ℓ ℓ' where
  lock := fun v isKey => by
    rw [isApart] at isKey
    cases isKey
  granted := fun other _ at_ => granted.trans at_
  app := fun a same => app a (Option.some.inj same)
  reads := reads
  held := by
    rw [held]
    exact fun other member => ⟨member, Option.some_ne_none value⟩
  vacant := by
    rw [vacant]
    rintro _ ⟨⟩
  strange := strange
  refused := refused

theorem SerialInv.exec (inv : SerialInv others answer h ℓ) {c : HostCall}
    (may : servingApart.may ℓ c) :
    SerialInv others answer (Host.exec c h).2 (ℓ.next ⟨c, (Host.exec c h).1⟩) := by
  have plain : ∀ (c : HostCall) (e : HostEvent), (Host.exec c h).2.shared = h.shared →
      (Host.exec c h).2.dispatch = h.dispatch → ((ℓ.next e).granted = ℓ.granted ∧
        (ℓ.next e).reads = ℓ.reads ∧ (ℓ.next e).held = ℓ.held ∧ (ℓ.next e).vacant = ℓ.vacant ∧
        (ℓ.next e).strange = ℓ.strange ∧ (ℓ.next e).refused = ℓ.refused) →
      SerialInv others answer (Host.exec c h).2 (ℓ.next e) := by
    intro c e shared dispatch fact
    obtain ⟨granted, reads, held, vacant, strange, refused⟩ := fact
    refine ⟨dispatch.trans inv.dispatch, ?_, ?_, ?_, ?_, ?_, strange.trans inv.strange, ?_⟩
    · rw [shared, granted]; exact inv.locks
    · rw [shared]; exact inv.apps
    · rw [reads]; exact inv.reads
    · rw [shared, held]; exact inv.held
    · rw [shared, vacant]; exact inv.vacant
    · rw [refused]; exact inv.refused
  cases may with
  | side _ side =>
    cases side with
    | read key => exact inv.read key
    | count size cas =>
      exact inv.set (.apart apart_counter (by rintro _ ⟨⟩) rfl rfl rfl rfl rfl rfl) fun _ => rfl
  | application app app' cas inHand left =>
    have isApart : Apart app.cacheKey.asString := by
      rcases inHand with ⟨key, read⟩ | ⟨_, formed, _⟩
      · exact inv.reads key app cas read
      · exact formed
    refine inv.set (.apart isApart ?_ rfl rfl rfl rfl rfl rfl) fun _ => rfl
    rintro _ ⟨⟩
    rcases left with rfl | passes
    · exact isApart
    · rw [passes.cacheKey]
      exact isApart
  | mapUserKey userKey id cas isSafe =>
    exact inv.set (.apart isSafe (by rintro _ ⟨⟩) rfl rfl rfl rfl rfl rfl) fun _ => rfl
  | acquire key v cas isKey new fresh =>
    refine inv.set ⟨?_, ?_, by rintro _ ⟨⟩, rfl, fun _ member => ⟨member, by rintro ⟨⟩⟩, by rintro _ ⟨⟩,
      rfl, rfl⟩ fun _ => rfl
    · rintro _ _ ⟨⟩
      exact ⟨⟨v, rfl⟩, Or.inr (if_pos new)⟩
    · intro other _ granted
      rw [fresh.granted] at granted
      cases granted
  | wait key v cas isKey added seen =>
    have kept : (ℓ.next ⟨.setSharedData key (some (.calloutLock v)) (some cas), .ok ()⟩).granted =
        ℓ.granted := if_neg added
    refine inv.set ⟨?_, fun _ _ granted => kept.trans granted, by rintro _ ⟨⟩, rfl,
      fun _ member => ⟨member, by rintro ⟨⟩⟩, by rintro _ ⟨⟩, rfl, rfl⟩ fun _ => rfl
    rintro _ _ ⟨⟩
    obtain ⟨old, oldCas, entry⟩ := inv.held key seen isKey
    exact ⟨⟨v, rfl⟩, (inv.locks key old oldCas isKey entry).2.imp_right kept.trans⟩
  | erase key own =>
    refine inv.set ⟨by rintro _ _ ⟨⟩, fun _ _ granted => granted, by rintro _ ⟨⟩, rfl, ?_, ?_, rfl, rfl⟩
      fun _ => rfl
    · exact fun _ member => absurd member List.not_mem_nil
    · rintro _ ⟨⟩
      exact ⟨rfl, rfl⟩
  | dispatch call granted unanswered =>
    show SerialInv others answer h (ℓ.next ⟨.dispatchHttpCall call, h.dispatch⟩)
    cases out : h.dispatch with
    | ok id =>
      exact ⟨inv.dispatch, inv.locks, inv.apps, inv.reads, inv.held, inv.vacant, inv.strange, inv.refused⟩
    | error e =>
      exact ⟨inv.dispatch, inv.locks, inv.apps, inv.reads, inv.held, inv.vacant, inv.strange,
        fun _ => ⟨e, inv.dispatch.symm.trans out⟩⟩
  | other _ notSet notDispatch =>
    cases c with
    | getSharedData key => exact inv.read key
    | setSharedData key value cas => exact absurd rfl (notSet key value cas)
    | dispatchHttpCall call => exact absurd rfl (notDispatch call)
    | _ => exact plain _ _ rfl rfl ⟨rfl, rfl, rfl, rfl, rfl, rfl⟩

/-- A callback that is run to its end. -/
theorem SerialInv.run {α : Type} {p : HostProg α} {Q : Progress → α → Prop} {t : List HostEvent} {a : α}
    {h' : Host} (inv : SerialInv others answer h ℓ) (follows : Follows servingApart Q p ℓ)
    (run : p.run Host.exec h = ⟨t, .done a, h'⟩) :
    SerialInv others answer h' (t.foldl Progress.next ℓ) ∧ Q (t.foldl Progress.next ℓ) a ∧
      servingApart.Allows ℓ t := by
  have preserved : ∀ h ℓ c, SerialInv others answer h ℓ → servingApart.may ℓ c →
      ∃ ℓ', servingApart.next ℓ c (Host.exec c h).1 = some ℓ' ∧
        SerialInv others answer (Host.exec c h).2 ℓ' :=
    fun _ _ _ inv may => ⟨_, rfl, inv.exec may⟩
  obtain ⟨ℓ', tracked, inv', returned⟩ := follows.run preserved inv
  have path := p.run_path Host.exec h
  have allows := (follows_iff_paths.mp follows _ _ path).1
  rw [run] at tracked inv' returned allows
  rw [serving_track] at tracked
  cases Option.some.inj tracked
  exact ⟨inv', returned, allows⟩

theorem granted_foldl {t : List HostEvent} {key : Str}
    (granted : (t.foldl Progress.next ℓ).granted = some key) :
    ℓ.granted = some key ∨ ∃ e ∈ t, Acquires key e := by
  induction t generalizing ℓ with
  | nil => exact Or.inl granted
  | cons e t ih =>
    rcases ih granted with here | ⟨e', member, acquires⟩
    · exact (Progress.granted_next here).imp_right fun acquires => ⟨e, List.mem_cons_self, acquires⟩
    · exact Or.inr ⟨e', List.mem_cons_of_mem e member, acquires⟩

theorem dispatched_foldl {t : List HostEvent} (dispatched : (t.foldl Progress.next ℓ).dispatched = true) :
    ℓ.dispatched = true ∨ ∃ e ∈ t, Dispatches e := by
  induction t generalizing ℓ with
  | nil => exact Or.inl dispatched
  | cons e t ih =>
    rcases ih dispatched with here | ⟨e', member, dispatches⟩
    · exact (Progress.dispatched_next.mp here).imp_right fun dispatches =>
        ⟨e, List.mem_cons_self, dispatches⟩
    · exact Or.inr ⟨e', List.mem_cons_of_mem e member, dispatches⟩

theorem ServingCall.acquire_inv {first : Application → Prop} {safe : Str → Prop} {e : HostEvent}
    {key : Str} (may : ServingCall first safe ℓ e.1) (acquires : Acquires key e) : ℓ.Fresh := by
  obtain ⟨v, cas, none_, rfl⟩ := acquires
  cases may with
  | side _ side => cases side
  | acquire _ _ _ _ _ fresh => exact fresh
  | wait _ _ _ _ added _ => exact absurd none_ added
  | other _ notSet _ => exact absurd rfl (notSet _ _ _)

/-- A lock that was acquired is the only one. -/
theorem granted_stays {t : List HostEvent} {key : Str} (allows : servingApart.Allows ℓ t)
    (granted : ℓ.granted = some key) : (t.foldl Progress.next ℓ).granted = some key := by
  induction t generalizing ℓ with
  | nil => exact granted
  | cons e t ih =>
    refine ih (allows.tail rfl) ?_
    have kept : (ℓ.next e).granted.isSome :=
      Progress.granted_kept (Option.isSome_iff_exists.mpr ⟨key, granted⟩)
    obtain ⟨key', later⟩ := Option.isSome_iff_exists.mp kept
    rcases Progress.granted_next later with same | acquires
    · rw [later, ← same, granted]
    · rw [(allows.head.acquire_inv acquires).granted] at granted
      cases granted

theorem granted_of_acquires {t : List HostEvent} {e : HostEvent} {key : Str}
    (allows : servingApart.Allows ℓ t) (member : e ∈ t) (acquires : Acquires key e) :
    (t.foldl Progress.next ℓ).granted = some key := by
  induction t generalizing ℓ with
  | nil => cases member
  | cons e' t ih =>
    rcases List.mem_cons.mp member with rfl | old
    · have granted : (ℓ.next e).granted = some key := by
        obtain ⟨v, cas, none_, rfl⟩ := acquires
        exact if_pos none_
      have stays := granted_stays (allows.tail rfl) granted
      exact stays
    · exact ih (allows.tail rfl) old

/-! All runs -/

structure WorldInv (w : World) : Prop where
  locks : ∀ key v cas, isLockKey key = true → w.host.shared.entry key = some (some v, cas) →
    (∃ lock, v = .calloutLock lock) ∧ Owned w.flights key
  apps : w.host.shared.Stored fun _ app => Apart app.cacheKey.asString
  flights : ∀ flight ∈ w.flights, ∀ key, ∀ e ∈ flight.trace, Acquires key e → key = lockKey flight.context

theorem WorldInv.before {w : World} (inv : WorldInv w) :
    SerialInv w.flights w.host.dispatch w.host {} where
  dispatch := rfl
  locks := fun key v cas isKey entry => (inv.locks key v cas isKey entry).imp_right Or.inl
  apps := inv.apps
  reads := fun _ _ _ member => absurd member List.not_mem_nil
  held := fun _ member => absurd member List.not_mem_nil
  vacant := by rintro _ _ _ ⟨⟩
  strange := rfl
  refused := by rintro ⟨⟩

theorem SerialInv.after {flights : List Flight} (inv : SerialInv others answer h ℓ)
    (owned : ∀ key v cas, h.shared.entry key = some (some v, cas) →
      Owned others key ∨ ℓ.granted = some key → Owned flights key)
    (keys : ∀ flight ∈ flights, ∀ key, ∀ e ∈ flight.trace, Acquires key e →
      key = lockKey flight.context) : WorldInv ⟨h, flights⟩ where
  locks := fun key v cas isKey entry =>
    (inv.locks key v cas isKey entry).imp_right (owned key v cas entry)
  apps := inv.apps
  flights := keys

/-- The response of a flight frees the lock of its context. -/
theorem WorldInv.responded {w : World} (inv : WorldInv w) {flight : Flight} {response : CallResponse}
    {before after : List Flight} {t : List HostEvent} {f' : CacheFilter} {h : Host}
    (split : w.flights = before ++ flight :: after)
    (run : (flight.context.onHttpCallResponse response).run Host.exec w.host = ⟨t, .done f', h⟩)
    (guard : Releases w (.callResponse flight response)) :
    WorldInv ⟨h, before ++ after⟩ ∧
      ∀ v cas, h.shared.entry (lockKey flight.context) ≠ some (some v, cas) := by
  have mem_iff : ∀ other, other ∈ w.flights ↔ other = flight ∨ other ∈ before ++ after := by
    intro other
    rw [split]
    simp only [List.mem_append, List.mem_cons]
    tauto
  let called : Progress := { granted := some (lockKey flight.context), dispatched := true }
  have start : SerialInv (before ++ after) w.host.dispatch w.host called := by
    refine ⟨rfl, fun key v cas isKey entry => ?_, inv.apps,
      fun _ _ _ member => absurd member List.not_mem_nil, fun _ member => absurd member List.not_mem_nil,
      (by rintro _ _ _ ⟨⟩), rfl, (by rintro ⟨⟩)⟩
    obtain ⟨lock, other, member, e, trace, acquires⟩ := inv.locks key v cas isKey entry
    refine ⟨lock, ?_⟩
    rcases (mem_iff other).mp member with rfl | kept
    · exact Or.inr (congrArg some (inv.flights other member key e trace acquires).symm)
    · exact Or.inl ⟨other, kept, e, trace, acquires⟩
  obtain ⟨later, freed, allows⟩ := start.run
    (serving_onHttpCallResponse ⟨rfl, rfl, rfl, rfl⟩ guard.2) run
  have granted := granted_stays allows (rfl : called.granted = some (lockKey flight.context))
  have vacant : ∀ v cas, h.shared.entry (lockKey flight.context) ≠ some (some v, cas) := by
    intro v cas
    rcases freed with error | vacant | strange
    · exact absurd error guard.1
    · exact later.vacant _ v cas vacant
    · rw [later.strange] at strange
      cases strange
  refine ⟨later.after ?_ fun other member => inv.flights other ((mem_iff other).mpr (Or.inr member)),
    vacant⟩
  intro key v cas entry fact
  obtain owned | mine := fact
  · exact owned
  · cases Option.some.inj (granted.symm.trans mine)
    exact absurd entry (vacant v cas)

theorem WorldInv.requested {w : World} (inv : WorldInv w) {lib : ThirdParty} {rounds : Nat}
    {f f' : CacheFilter} {headers : Str → Option Str} {action : Action} {t : List HostEvent} {h : Host}
    (run : (f.onHttpRequestHeaders lib rounds headers).run Host.exec w.host = ⟨t, .done (f', action), h⟩) :
    SerialInv w.flights w.host.dispatch h (t.foldl Progress.next {}) ∧
      Handed (∀ data, CacheFilter.getRequestData lib headers = .ok data → lib.Builds data)
        (t.foldl Progress.next {}) f' ∧
      ∀ key, ∀ e ∈ t, Acquires key e → key = lockKey f' := by
  obtain ⟨later, handed, allows⟩ := inv.before.run
    (serving_onHttpRequestHeaders ⟨rfl, rfl, rfl, rfl⟩) run
  exact ⟨later, handed, fun key e member acquires =>
    handed.granted key (granted_of_acquires allows member acquires)⟩

theorem WorldInv.step {w w' : World} {d : Delivery} (inv : WorldInv w) (step : Delivers w d w')
    (guard : Releases w d) : WorldInv w' := by
  cases step with
  | @called lib rounds f headers t f' action h run out =>
    obtain ⟨later, handed, keys⟩ := inv.requested run
    refine later.after ?_ fun flight member => ?_
    · intro key v cas _ fact
      obtain ⟨flight, member, owned⟩ | granted := fact
      · exact ⟨flight, List.mem_cons_of_mem _ member, owned⟩
      · rcases granted_foldl granted with nothing | acquired
        · cases nothing
        · exact ⟨_, List.mem_cons_self, acquired⟩
    · rcases List.mem_cons.mp member with rfl | old
      · exact keys
      · exact inv.flights flight old
  | @settled lib rounds f headers t f' action h run silent =>
    obtain ⟨later, handed, _⟩ := inv.requested run
    refine later.after ?_ inv.flights
    intro key v cas _ fact
    obtain owned | granted := fact
    · exact owned
    · have acquired := (granted_foldl granted).resolve_left (by rintro ⟨⟩)
      obtain ⟨⟨id, accepted⟩, builds⟩ := guard ⟨key, by rw [run]; exact acquired⟩
      rcases handed.made builds (Option.isSome_iff_exists.mpr ⟨key, granted⟩) with out | refused
      · exact absurd ((dispatched_foldl out).resolve_left (by rintro ⟨⟩)) silent
      · obtain ⟨e, error⟩ := later.refused refused
        rw [accepted] at error
        cases error
  | responded split run => exact (inv.responded split run guard).1
  | served run =>
    obtain ⟨later, same, _⟩ := inv.before.run serving_onQueueReady run
    refine later.after ?_ inv.flights
    intro key v cas _ fact
    obtain owned | granted := fact
    · exact owned
    · rw [same.granted] at granted
      cases granted
  | moved env =>
    obtain ⟨clock, dispatch, rfl⟩ := env
    exact ⟨inv.locks, inv.apps, inv.flights⟩

/-- No lock is held, and no application has a key that looks like a lock key. -/
structure Clean (h : Host) : Prop where
  locks : ∀ key v cas, isLockKey key = true → h.shared.entry key ≠ some (some v, cas)
  apps : h.shared.Stored fun _ app => Apart app.cacheKey.asString

theorem worldInv_reached {h : Host} {w : World} (clean : Clean h)
    (reach : Delivered Releases ⟨h, []⟩ w) : WorldInv w := by
  induction reach with
  | start =>
    exact ⟨fun key v cas isKey entry => absurd entry (clean.locks key v cas isKey), clean.apps,
      fun _ member => absurd member List.not_mem_nil⟩
  | next _ step guard ih => exact ih.step step guard

/-- In a run whose steps all meet `Releases`, held locks have a callout in
flight, and the response of a context leaves its lock free. -/
theorem locks_inFlight {h : Host} {w : World} (clean : Clean h)
    (reach : Delivered Releases ⟨h, []⟩ w) :
    LocksInFlight w ∧ ∀ flight response w', Delivers w (.callResponse flight response) w' →
      Releases w (.callResponse flight response) →
      ∀ v cas, w'.host.shared.entry (lockKey flight.context) ≠ some (some v, cas) := by
  have inv := worldInv_reached clean reach
  constructor
  · exact fun k v cas entry => (inv.locks _ v cas (isLockKey_calloutLockKey k) entry).2
  · intro flight response w' step guard
    cases step with
    | responded split run => exact (inv.responded split run guard).2

/-- A request that finds an empty cache. -/
def hitRun : Prog.Ran HostCall HostCall.Reply Host (CacheFilter × Action) :=
  ((hitFilter 1).onHttpRequestHeaders hitLib 3 hitHeaders).run Host.exec quietHost

theorem hitRun_out : ∃ e ∈ hitRun.trace, Dispatches e :=
  ⟨⟨.dispatchHttpCall _, .ok 1⟩, List.mem_of_getElem? (rfl : hitRun.trace[5]? = _), _, 1, rfl⟩

/-- Its context, with the call out. -/
def hitAsked : CacheFilter :=
  { hitFilter 1 with state.reqData := oneHit, state.cacheKey := ⟨['s'], .appId ['a'] none⟩ }

def hitWorld : World := ⟨hitRun.state, [⟨hitAsked, hitRun.trace, hitRun_out⟩]⟩

theorem hitRun_done : ((hitFilter 1).onHttpRequestHeaders hitLib 3 hitHeaders).run Host.exec quietHost =
    ⟨hitRun.trace, .done (hitAsked, .pause), hitRun.state⟩ := rfl

theorem hitWorld_delivers :
    Delivers ⟨quietHost, []⟩ (.requestHeaders hitLib 3 (hitFilter 1) hitHeaders) hitWorld :=
  .called hitRun_done hitRun_out

theorem clean_quietHost : Clean quietHost where
  locks := by rintro _ _ _ _ ⟨⟩
  apps := by rintro _ _ _ ⟨⟩

/-- Its lock has the callout in flight. -/
theorem locks_inFlight_asked :
    LocksInFlight hitWorld ∧ ∀ flight response w', Delivers hitWorld (.callResponse flight response) w' →
      Releases hitWorld (.callResponse flight response) →
      ∀ v cas, w'.host.shared.entry (lockKey flight.context) ≠ some (some v, cas) := by
  have guard : Releases ⟨quietHost, []⟩ (.requestHeaders hitLib 3 (hitFilter 1) hitHeaders) :=
    fun _ => ⟨⟨1, rfl⟩, fun _ _ _ => rfl⟩
  exact locks_inFlight clean_quietHost (.next .start hitWorld_delivers guard)

def errorReply : CallResponse :=
  ⟨some "404".toList, some (.parsed (.error "application_not_found".toList))⟩

/-- The callback of an authorization error. -/
def errorRun : Prog.Ran HostCall HostCall.Reply Host CacheFilter :=
  (hitAsked.onHttpCallResponse errorReply).run Host.exec hitRun.state

def errorWorld : World := ⟨errorRun.state, []⟩

/-- After it the lock is held, and nobody is there to free it. -/
theorem not_locks_inFlight_error :
    Delivered (fun _ _ => True) ⟨quietHost, []⟩ errorWorld ∧ Clean quietHost ∧
    ¬LocksInFlight errorWorld := by
  refine ⟨?_, clean_quietHost, fun inFlight => ?_⟩
  · have run : (hitAsked.onHttpCallResponse errorReply).run Host.exec hitRun.state =
        ⟨errorRun.trace, .done hitAsked, errorRun.state⟩ := rfl
    have split : hitWorld.flights = [] ++ ⟨hitAsked, hitRun.trace, hitRun_out⟩ :: [] := rfl
    have answered : Delivers hitWorld
        (.callResponse ⟨hitAsked, hitRun.trace, hitRun_out⟩ errorReply) errorWorld :=
      .responded split run
    exact .next (.next .start hitWorld_delivers trivial) answered trivial
  · have held : ∃ v cas, errorWorld.host.shared.entry (calloutLockKey ⟨['s'], .appId ['a'] none⟩) =
        some (some v, cas) := ⟨_, _, rfl⟩
    obtain ⟨v, cas, entry⟩ := held
    obtain ⟨flight, member, _⟩ := inFlight _ v cas entry
    cases member

end ThreescaleCache
