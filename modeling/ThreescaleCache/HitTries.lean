import ThreescaleCache.EntryCell

namespace ThreescaleCache
open Interaction

/-! A thread that debits a cached application only has to try again if it was
overtaken by another one, and only gives up if that has happened each time. -/

/-- How often a party tries to write its debit. -/
def Debiter.tries : Debiter → Nat
  | .filter f => f.config.maxTries
  | .singleton .. => 1

/-! The protocol of one thread -/

/-- What a thread knows: its attempts to write the application, and whether it
has noted an authorization. -/
structure Trying where
  attempts : Attempts (Option Nat) := {}
  noted : Bool := false

namespace Trying

/-- Nothing but an application filed under `K` is ever read there, and a write
is accepted, or refused because of its CAS. -/
def next (K : Str) (ℓ : Trying) : (c : HostCall) → c.Reply → Option Trying
  | .getSharedData key, reply =>
    if key = K then
      match reply with
      | .ok (some (.application app), some cas) =>
        if app.cacheKey.asString = K then some { ℓ with attempts := ℓ.attempts.after (.read (some cas)) }
        else none
      | _ => none
    else some ℓ
  | .setSharedData key value cas, reply =>
    match reply with
    | .ok () | .error .casMismatch =>
      some { ℓ with attempts := ℓ.attempts.after (accessTo K ⟨.setSharedData key value cas, reply⟩) }
    | _ => none
  | .limitChecked (.ok (.authorized _)), _ => some { ℓ with noted := true }
  | _, _ => some ℓ

/-- As many refusals, and at least as much seen. -/
structure Le (ℓ ℓ' : Trying) : Prop where
  seen : ℓ.attempts.seen ⊆ ℓ'.attempts.seen
  lost : ℓ'.attempts.lost = ℓ.attempts.lost
  noted : ℓ'.noted = ℓ.noted

theorem Le.refl (ℓ : Trying) : Le ℓ ℓ := ⟨fun _ => id, rfl, rfl⟩

theorem Le.trans {ℓ₁ ℓ₂ ℓ₃ : Trying} (first : Le ℓ₁ ℓ₂) (second : Le ℓ₂ ℓ₃) : Le ℓ₁ ℓ₃ :=
  ⟨fun _ member => second.seen (first.seen member), second.lost.trans first.lost, second.noted.trans first.noted⟩

end Trying

inductive TryCall (K : Str) (tries : Nat) (ℓ : Trying) : HostCall → Prop
  | count (size : UInt64) (cas : Option Nat) (other : sharedMemoryCounterKey ≠ K) :
      TryCall K tries ℓ (.setSharedData sharedMemoryCounterKey (some (.memoryCounter size)) cas)
  | write (app : Application) (cas : Nat) (filed : app.cacheKey.asString = K)
      (seen : some cas ∈ ℓ.attempts.seen) :
      TryCall K tries ℓ (.setSharedData K (some (.application app)) (some cas))
  | resume (earned : ℓ.noted = true ∨ tries ≤ ℓ.attempts.lost) : TryCall K tries ℓ .resumeHttpRequest
  | other (c : HostCall) (notSet : ∀ key value cas, c ≠ .setSharedData key value cas)
      (notResume : c ≠ .resumeHttpRequest) : TryCall K tries ℓ c

def trying (K : Str) (tries : Nat) : HostProtocol Trying where
  may := TryCall K tries
  next := Trying.next K

variable {K : Str} {tries : Nat} {ℓ : Trying}

theorem TryCall.read (key : Str) : TryCall K tries ℓ (.getSharedData key) :=
  .other _ (by rintro _ _ _ ⟨⟩) (by rintro ⟨⟩)

/-- What is read elsewhere is of no interest, and under `K` there is an application. -/
theorem Trying.next_read {key : Str} {r : Except Status (Option SharedValue × Option Nat)} {ℓ' : Trying}
    (known : ℓ.next K (.getSharedData key) r = some ℓ') : ℓ.Le ℓ' ∧ (key = K →
      ∃ app cas, r = .ok (some (.application app), some cas) ∧ app.cacheKey.asString = K ∧
        some cas ∈ ℓ'.attempts.seen) := by
  by_cases same : key = K
  · simp only [Trying.next, if_pos same] at known
    split at known
    · rename_i app cas
      split at known
      · rename_i filed
        cases Option.some.inj known
        exact ⟨⟨fun _ => List.mem_cons_of_mem _, rfl, rfl⟩, fun _ => ⟨app, cas, rfl, filed, List.mem_cons_self⟩⟩
      · cases known
    · cases known
  · simp only [Trying.next, if_neg same] at known
    cases Option.some.inj known
    exact ⟨.refl ℓ, fun here => absurd here same⟩

theorem Trying.next_set_elsewhere {key : Str} {value : Option SharedValue} {cas : Option Nat}
    {r : Except Status Unit} {ℓ' : Trying} (other : key ≠ K)
    (known : ℓ.next K (.setSharedData key value cas) r = some ℓ') : ℓ' = ℓ := by
  match r, cas with
  | .ok (), _ | .error .casMismatch, some _ =>
    simp only [Trying.next, accessTo, if_neg other, Attempts.after] at known
    exact (Option.some.inj known).symm
  | .error .casMismatch, none => exact (Option.some.inj known).symm
  | .error .notFound, _ | .error .badArgument, _ | .error .empty, _ | .error .internalFailure, _ => cases known

theorem trying_keeps (other : sharedMemoryCounterKey ≠ K) : (trying K tries).Keeps Trying.Le SideCall where
  refl := .refl
  trans := .trans
  may := by
    intro ℓ c side
    cases side with
    | read key => exact .read key
    | count size cas => exact .count size cas other
  next := by
    intro ℓ c r ℓ' side known
    cases side with
    | read key => exact (Trying.next_read known).1
    | count size cas =>
      cases Trying.next_set_elsewhere other known
      exact .refl ℓ

/-- If the counter has the key of the application, it is never written: what
is read there is no counter. -/
theorem trying_updateSharedMemorySize (same : sharedMemoryCounterKey = K) (delta : Int32) :
    Follows (trying K tries) (fun ℓ' r => ℓ.Le ℓ' ∧ ∃ e, r = .error e) (updateSharedMemorySize delta) ℓ := by
  refine ⟨.read _, fun r ℓ' known => ?_⟩
  obtain ⟨le, read⟩ := Trying.next_read known
  obtain ⟨app, cas, rfl, _⟩ := read same
  dsimp only [Prog.bind]
  rw [SharedValue.counter_application]
  exact ⟨le, _, rfl⟩

theorem trying_counted (delta : Int32) (rounds : Nat) (ℓ : Trying) :
    Follows (trying K tries) (fun ℓ' _ => ℓ.Le ℓ') (retryUpdateSharedMemorySize delta rounds) ℓ := by
  by_cases same : sharedMemoryCounterKey = K
  · induction rounds generalizing ℓ with
    | zero => exact .refl ℓ
    | succ rounds ih =>
      refine follows_bind.mpr ((trying_updateSharedMemorySize same delta).mono ?_)
      intro ℓ' _ fact
      obtain ⟨le, e, rfl⟩ := fact
      exact (ih ℓ').mono fun _ _ later => le.trans later
  · exact (trying_keeps same).follows (only_retryUpdateSharedMemorySize delta rounds) ℓ

/-- The application is not stored only if the write was refused. -/
theorem trying_setApplicationToCache {app : Application} {cas : Nat} (filed : app.cacheKey.asString = K)
    (seen : some cas ∈ ℓ.attempts.seen) :
    Follows (trying K tries) (fun ℓ' r => ℓ'.noted = ℓ.noted ∧
        ∀ e, r = .error e → ℓ'.attempts.lost = ℓ.attempts.lost + 1)
      (setApplicationToCache K app cas) ℓ := by
  have size : Follows (trying K tries) (fun ℓ' r => ℓ.Le ℓ' ∧ ∃ used, r = .ok used) (getCachePairSize K) ℓ := by
    refine ⟨.read _, fun r ℓ' known => ?_⟩
    obtain ⟨le, read⟩ := Trying.next_read known
    obtain ⟨app, cas, rfl, _⟩ := read rfl
    exact ⟨le, _, rfl⟩
  refine follows_bind.mpr (size.mono fun ℓ₁ r fact => ?_)
  obtain ⟨le, used, rfl⟩ := fact
  refine ⟨.write app cas filed (le.seen seen), fun r ℓ₂ known => ?_⟩
  match r with
  | .ok () =>
    cases Option.some.inj known
    show Follows (trying K tries) _ (retryUpdateSharedMemorySize _ 3 >>= fun _ =>
      pure (.ok () : Except SetFailure Unit)) _
    refine follows_bind.mpr ((trying_counted _ 3 _).mono fun ℓ₃ _ later => ?_)
    exact ⟨later.noted.trans le.noted, by rintro _ ⟨⟩⟩
  | .error .casMismatch =>
    cases Option.some.inj known
    refine ⟨le.noted, fun _ _ => ?_⟩
    simp only [accessTo, if_true, Attempts.after, le.lost]
  | .error .notFound | .error .badArgument | .error .empty | .error .internalFailure => cases known

/-- A check is not finished only if its write was refused. -/
theorem trying_limitCheck {data : ThreescaleData} {app : Application} {cas : Nat} {now : Duration}
    (filed : app.cacheKey.asString = K) (seen : some cas ∈ ℓ.attempts.seen) :
    Follows (trying K tries) (fun ℓ' r => match r with
        | .ok (.authorized _) => ℓ'.noted = true
        | .error (.cacheUpdateFail _) => ℓ'.attempts.lost = ℓ.attempts.lost + 1
        | _ => True)
      (limitCheckAndUpdateApplication data app cas now) ℓ := by
  have may : ∀ ℓ₁ result, TryCall K tries ℓ₁ (.limitChecked result) :=
    fun _ _ => .other _ (by rintro _ _ _ ⟨⟩) (by rintro ⟨⟩)
  unfold limitCheckAndUpdateApplication
  cases verdict : limitCheck now data.metrics.entries app {} with
  | trap => trivial
  | overflow | limited => exact ⟨may _ _, fun _ _ _ => trivial⟩
  | pass app' info =>
    dsimp only
    have kept : app'.cacheKey.asString = K := by rw [limitCheck_pass_cacheKey verdict, filed]
    rw [kept]
    refine follows_bind.mpr ((trying_setApplicationToCache kept seen).mono fun ℓ₁ r fact => ?_)
    obtain ⟨_, refused⟩ := fact
    cases r with
    | ok =>
      refine ⟨may _ _, fun _ ℓ₂ known => ?_⟩
      cases Option.some.inj known
      rfl
    | error e =>
      refine ⟨may _ _, fun _ ℓ₂ known => ?_⟩
      cases Option.some.inj known
      exact refused e rfl

theorem trying_getApplicationFromCache {key : CacheKey} (same : key.asString = K) :
    Follows (trying K tries) (fun ℓ' r => ℓ.Le ℓ' ∧ ∀ app cas, r = .ok (app, cas) →
        app.cacheKey.asString = K ∧ some cas ∈ ℓ'.attempts.seen)
      (getApplicationFromCache key) ℓ := by
  refine ⟨.read _, fun r ℓ' known => ?_⟩
  obtain ⟨le, read⟩ := Trying.next_read known
  obtain ⟨app, cas, rfl, filed, seen⟩ := read same
  refine ⟨le, ?_⟩
  rintro _ _ ⟨⟩
  exact ⟨filed, seen⟩

/-- The calls on the way that say nothing about a try. -/
theorem trying_aside {α : Type} {c : HostCall} {f : c.Reply → HostProg α} {Q : Trying → α → Prop}
    (idle : isIdle c = true) (notResume : c ≠ .resumeHttpRequest)
    (rest : ∀ r, Follows (trying K tries) Q (f r) ℓ) : Follows (trying K tries) Q (ask c >>= f) ℓ := by
  refine ⟨.other _ ?_ notResume, fun r ℓ' known => ?_⟩
  · intro key value cas same
    subst same
    cases idle
  · have same : ℓ.next K c r = some ℓ := by
      cases c <;> first | rfl | cases idle
    cases Option.some.inj (same.symm.trans known)
    exact rest r

theorem trying_resume {α : Type} {a : α} (earned : ℓ.noted = true ∨ tries ≤ ℓ.attempts.lost) :
    Follows (trying K tries) (fun _ _ => True) (resumeHttpRequest >>= fun _ => pure a) ℓ :=
  ⟨.resume earned, fun _ _ _ => trivial⟩

theorem trying_onAuthorizedTry {f : CacheFilter} {queueId cas : Nat} {now : Duration} {info : RateLimitInfo}
    (noted : ℓ.noted = true) :
    Follows (trying K tries) (fun _ _ => True) (f.onAuthorizedTry queueId now cas info) ℓ := by
  have report : Follows (trying K tries) (fun _ _ => True)
      (((f.withRateLimitInfo info).reportToSingleton queueId now) >>= fun _ => resumeHttpRequest >>= fun _ =>
        pure (f.withRateLimitInfo info, (.ok () : Except CacheHitError Unit))) ℓ := by
    refine trying_aside rfl (by rintro ⟨⟩) fun r => ?_
    cases r <;> exact trying_resume (Or.inl noted)
  unfold CacheFilter.onAuthorizedTry onlyIf
  by_cases zero : cas = 0
  · simp only [zero, if_true]
    exact trying_aside rfl (by rintro ⟨⟩) fun _ => report
  · simp only [zero, if_false]
    exact report

/-- The request is given up only after as many refusals as there are tries. -/
theorem trying_cacheHitTries {f : CacheFilter} {queueId left cas : Nat} {now : Duration} {app : Application}
    (key : f.state.cacheKey.asString = K) (filed : app.cacheKey.asString = K)
    (seen : some cas ∈ ℓ.attempts.seen) (enough : tries ≤ left + ℓ.attempts.lost) :
    Follows (trying K tries) (fun _ _ => True) (CacheFilter.cacheHitTries queueId now left f app cas) ℓ := by
  let Inv (left : Nat) (ℓ' : Trying) (app : Application) (cas : Nat) : Prop :=
    app.cacheKey.asString = K ∧ some cas ∈ ℓ'.attempts.seen ∧ tries ≤ left + ℓ'.attempts.lost
  refine follows_cacheHitTries f Inv ?_ ?_ ⟨filed, seen, enough⟩
  · intro ℓ₁ app cas fact
    obtain ⟨_, _, enough⟩ := fact
    exact trying_resume (Or.inr (by omega))
  · intro left ℓ₁ app cas fact
    obtain ⟨filed, seen, enough⟩ := fact
    refine (trying_limitCheck filed seen).mono fun ℓ₂ result outcome => ?_
    match result, outcome with
    | .ok (.authorized info), noted => exact trying_onAuthorizedTry noted
    | .ok (.rateLimited info), _ => exact trying_aside rfl (by rintro ⟨⟩) fun _ => trivial
    | .error .durationOverflow, _ => trivial
    | .error (.cacheUpdateFail _), lost =>
      refine (trying_getApplicationFromCache key).mono fun ℓ₃ fetched fact => ?_
      obtain ⟨le, read⟩ := fact
      cases fetched with
      | error e => trivial
      | ok pair =>
        obtain ⟨filed, seen⟩ := read _ _ rfl
        have lost' := le.lost
        exact ⟨filed, seen, by omega⟩

theorem trying_handleCacheHit {f : CacheFilter} {cas : Nat} {app : Application}
    (key : f.state.cacheKey.asString = K) (filed : app.cacheKey.asString = K)
    (seen : some cas ∈ ℓ.attempts.seen) :
    Follows (trying K f.config.maxTries) (fun _ _ => True) (f.handleCacheHit app cas) ℓ := by
  rw [handleCacheHit_eq]
  refine trying_aside rfl (by rintro ⟨⟩) fun _ => trying_aside rfl (by rintro ⟨⟩) fun queue => ?_
  cases queue with
  | none => trivial
  | some queueId =>
    refine ⟨.other _ (by rintro _ _ _ ⟨⟩) (by rintro ⟨⟩), fun now ℓ' known => ?_⟩
    cases Option.some.inj known
    cases now with
    | none => trivial
    | some now =>
      dsimp only
      cases addHierarchyToMetrics app.metricHierarchy f.state.reqData.metrics with
      | none => trivial
      | some _ => exact trying_cacheHitTries key filed seen (Nat.le_add_right _ _)

theorem Debiter.tries_follows {party : Debiter} (key : party.cacheKey.asString = K) :
    Follows (trying K party.tries) (fun _ _ => True) party.program {} := by
  cases party with
  | filter f =>
    refine follows_bind.mpr ((trying_getApplicationFromCache key).mono fun ℓ₁ found fact => ?_)
    obtain ⟨_, read⟩ := fact
    cases found with
    | error e => trivial
    | ok pair =>
      obtain ⟨filed, seen⟩ := read _ _ rfl
      exact follows_bind.mpr ((trying_handleCacheHit key filed seen).mono fun _ _ _ => trivial)
  | singleton data reqTime =>
    refine follows_bind.mpr (follows_bind.mpr ((trying_getApplicationFromCache key).mono fun ℓ₁ found fact => ?_))
    obtain ⟨_, read⟩ := fact
    cases found with
    | error e => trivial
    | ok pair =>
      obtain ⟨filed, seen⟩ := read _ _ rfl
      refine follows_bind.mpr ((trying_limitCheck filed seen).mono fun ℓ₂ result _ => ?_)
      match result with
      | .ok (.authorized _) | .ok (.rateLimited _) | .error .durationOverflow | .error (.cacheUpdateFail _) => trivial

/-! The invariant -/

section
variable {ι : Type} [DecidableEq ι]

/-- How the threads fare with their tries: the refused writes of a thread are at
most the others that have stored their debit, and a request that goes on without
one has had all its tries overtaken. -/
structure Overtakes (K : Str) (party : ι → Debiter) (t : List (ι × HostEvent)) : Prop where
  refusals : ∀ i, (entryCell ι K).refusals i t ≤ (otherWriters K i t).card
  released : ∀ i, (i, ⟨.resumeHttpRequest, ()⟩) ∈ t →
    0 < authorizationsOf t i ∨ (party i).tries ≤ (otherWriters K i t).card

structure TryInv (K : Str) (party : ι → Debiter) (d : SharedData) (t : List (ι × HostEvent))
    (known : ι → Trying) : Prop where
  filed : ∃ app cas, d.entry K = some (some (.application app), cas) ∧ app.cacheKey.asString = K
  noted : ∀ i, (known i).noted = true → 0 < authorizationsOf t i
  released : ∀ i, (i, ⟨.resumeHttpRequest, ()⟩) ∈ t →
    (known i).noted = true ∨ (party i).tries ≤ (known i).attempts.lost

variable {party : ι → Debiter} {t : List (ι × HostEvent)} {d d' : SharedData} {known : ι → Trying}

/-- What a reply tells about the tries. -/
theorem Trying.next_attempts {c : HostCall} {r : c.Reply} {ℓ' : Trying} (known : ℓ.next K c r = some ℓ') :
    ℓ'.attempts = ℓ.attempts.after (accessTo K ⟨c, r⟩) := by
  cases c with
  | getSharedData key =>
    by_cases same : key = K
    · simp only [Trying.next, if_pos same] at known
      split at known
      · split at known
        · cases Option.some.inj known
          simp only [accessTo, if_pos same]
        · cases known
      · cases known
    · simp only [Trying.next, if_neg same] at known
      cases Option.some.inj known
      match r with
      | .ok (_, _) => simp only [accessTo, if_neg same, Attempts.after]
      | .error e => rfl
  | setSharedData key value cas =>
    match r with
    | .ok () | .error .casMismatch =>
      cases Option.some.inj known
      rfl
    | .error .notFound | .error .badArgument | .error .empty | .error .internalFailure => cases known
  | limitChecked result =>
    match result with
    | .ok (.authorized _) | .ok (.rateLimited _) | .error .durationOverflow | .error (.cacheUpdateFail _) =>
      cases Option.some.inj known
      rfl
  | _ =>
    cases Option.some.inj known
    rfl

theorem Trying.next_noted {c : HostCall} {r : c.Reply} {ℓ' : Trying} (known : ℓ.next K c r = some ℓ') :
    ℓ'.noted = (ℓ.noted || isAuthorized ⟨c, r⟩) := by
  cases c with
  | getSharedData key =>
    rw [(Trying.next_read known).1.noted]
    exact (Bool.or_false _).symm
  | setSharedData key value cas =>
    match r with
    | .ok () | .error .casMismatch =>
      cases Option.some.inj known
      exact (Bool.or_false _).symm
    | .error .notFound | .error .badArgument | .error .empty | .error .internalFailure => cases known
  | limitChecked result =>
    match result with
    | .ok (.authorized _) =>
      cases Option.some.inj known
      exact (Bool.or_true _).symm
    | .ok (.rateLimited _) | .error .durationOverflow | .error (.cacheUpdateFail _) =>
      cases Option.some.inj known
      exact (Bool.or_false _).symm
  | _ =>
    cases Option.some.inj known
    exact (Bool.or_false _).symm

/-- What has to be shown of a call: what it leaves under `K`. -/
theorem TryInv.called (inv : TryInv K party d t known) {i : ι} {c : HostCall} {r : c.Reply} {ℓ' : Trying}
    (may : TryCall K (party i).tries (known i) c) (next : (known i).next K c r = some ℓ')
    (filed : ∃ app cas, d'.entry K = some (some (.application app), cas) ∧ app.cacheKey.asString = K) :
    TryInv K party d' (t ++ [(i, ⟨c, r⟩)]) (Function.update known i ℓ') where
  filed := filed
  noted := by
    intro j noted
    rw [authorizationsOf_append]
    by_cases same : j = i
    · subst same
      rw [Function.update_self, Trying.next_noted next] at noted
      rcases Bool.or_eq_true_iff.mp noted with old | new
      · exact Nat.lt_add_right _ (inv.noted j old)
      · rw [if_pos ⟨rfl, new⟩]
        exact Nat.succ_pos _
    · rw [Function.update_of_ne same] at noted
      exact Nat.lt_add_right _ (inv.noted j noted)
  released := by
    intro j member
    by_cases same : j = i
    · subst same
      rw [Function.update_self, Trying.next_noted next, Trying.next_attempts next]
      have earned : (known j).noted = true ∨ (party j).tries ≤ (known j).attempts.lost := by
        rcases List.mem_append.mp member with old | new
        · exact inv.released j old
        · cases List.mem_singleton.mp new
          cases may with
          | resume earned => exact earned
          | other _ _ notResume => exact absurd rfl notResume
      rcases earned with noted | enough
      · exact Or.inl (by rw [noted, Bool.true_or])
      · exact Or.inr (enough.trans (Attempts.lost_le_after _ _))
    · rw [Function.update_of_ne same]
      rcases List.mem_append.mp member with old | new
      · exact inv.released j old
      · exact absurd (congrArg Prod.fst (List.mem_singleton.mp new)) same

theorem TryInv.call {h : Host} (inv : TryInv K party h.shared t known) {i : ι} {c : HostCall}
    (may : TryCall K (party i).tries (known i) c) :
    ∃ ℓ', (known i).next K c (Host.exec c h).1 = some ℓ' ∧
      TryInv K party (Host.exec c h).2.shared (t ++ [(i, ⟨c, (Host.exec c h).1⟩)]) (Function.update known i ℓ') := by
  have step : (∃ ℓ', (known i).next K c (Host.exec c h).1 = some ℓ') ∧
      ∃ app cas, (Host.exec c h).2.shared.entry K = some (some (.application app), cas) ∧
        app.cacheKey.asString = K := by
    cases may with
    | count size cas other =>
      rcases h.shared.set_cases sharedMemoryCounterKey (some (.memoryCounter size)) cas with put | refused
      · simp only [Host.exec, put, h.shared.put_entry_ne _ (Ne.symm other)]
        exact ⟨⟨_, rfl⟩, inv.filed⟩
      · simp only [Host.exec, refused]
        exact ⟨⟨_, rfl⟩, inv.filed⟩
    | write app cas filed seen =>
      rcases h.shared.set_cases K (some (.application app)) (some cas) with put | refused
      · simp only [Host.exec, put]
        exact ⟨⟨_, rfl⟩, app, _, h.shared.put_entry_self K _, filed⟩
      · simp only [Host.exec, refused]
        exact ⟨⟨_, rfl⟩, inv.filed⟩
    | resume => exact ⟨⟨_, rfl⟩, inv.filed⟩
    | other _ notSet =>
      cases c with
      | setSharedData key value cas => exact absurd rfl (notSet key value cas)
      | getSharedData key =>
        refine ⟨?_, inv.filed⟩
        by_cases same : key = K
        · subst same
          obtain ⟨app, cas, here, filed⟩ := inv.filed
          simp only [Host.exec, SharedData.get_present here, Trying.next, if_true, filed]
          exact ⟨_, rfl⟩
        · exact ⟨_, if_neg same⟩
      | limitChecked result =>
        match result with
        | .ok (.authorized _) | .ok (.rateLimited _) | .error .durationOverflow | .error (.cacheUpdateFail _) =>
          exact ⟨⟨_, rfl⟩, inv.filed⟩
      | _ => exact ⟨⟨_, rfl⟩, inv.filed⟩
  obtain ⟨⟨ℓ', next⟩, filed⟩ := step
  exact ⟨ℓ', next, inv.called may next filed⟩

theorem tries_preserved (party : ι → Debiter) (guard) :
    Preserved (debitParties ι K) guard (fun i => trying K (party i).tries) (fun _ _ _ => True)
      fun s => TryInv K party s.shared.shared s.trace where
  call := fun _ _ _ _ _ inv _ may _ => inv.call may
  resume := fun _ _ _ _ _ _ _ _ resumes => False.elim resumes
  env := by
    intro s known _ inv fact
    obtain ⟨clock, dispatch, rfl⟩ | ⟨key, value, other, rfl⟩ := fact
    · exact inv
    · refine ⟨?_, inv.noted, inv.released⟩
      rw [s.shared.shared.put_entry_ne value (Ne.symm other)]
      exact inv.filed

/-- A write relies on a version that the thread has seen since its last one. -/
theorem TryCall.vouched {c : HostCall} {r : c.Reply} {version : Option Nat} (may : TryCall K tries ℓ c)
    (refused : accessTo K ⟨c, r⟩ = .refused version) : version ∈ ℓ.attempts.seen := by
  cases may with
  | count size cas other =>
    match r, cas with
    | .ok (), _ | .error .casMismatch, some _ =>
      simp only [accessTo, if_neg other] at refused
      cases refused
    | .error .casMismatch, none | .error .notFound, _ | .error .badArgument, _ | .error .empty, _
    | .error .internalFailure, _ => cases refused
  | write app cas filed seen =>
    match r with
    | .error .casMismatch =>
      simp only [accessTo, if_true] at refused
      cases refused
      exact seen
    | .ok () =>
      simp only [accessTo, if_true] at refused
      cases refused
    | .error .notFound | .error .badArgument | .error .empty | .error .internalFailure => cases refused
  | resume => cases refused
  | other _ notSet =>
    cases c with
    | setSharedData key value cas => exact absurd rfl (notSet key value cas)
    | getSharedData key =>
      match r with
      | .ok (_, _) =>
        simp only [accessTo] at refused
        split at refused <;> cases refused
      | .error _ => cases refused
    | _ => cases refused

/-- However the calls of the threads that debit an application are interleaved,
a try fails only because another thread has stored its debit meanwhile. A request
goes on without a debit only if there were as many others as it had tries. -/
theorem debits_overtaken {party : ι → Debiter} {initial : Application} {h : Host} {cas : Nat} {s : DebitConfig ι}
    (cached : h.shared.entry K = some (some (.application initial), cas))
    (own : initial.cacheKey.asString = K) (same : ∀ i, (party i).cacheKey.asString = K)
    (reach : Reach (debitParties ι K) anyStep (debitStart party h) s) : Overtakes K party s.trace := by
  have once : ∀ i, storesOf K s.trace i ≤ 1 := by
    obtain ⟨known, inv, _⟩ := reach_linearInv cached own same reach
    intro i
    rw [inv.written]
    exact Bool.toNat_le _
  have start : TryInv K party h.shared [] fun _ => {} :=
    ⟨⟨initial, cas, cached, own⟩, (by rintro _ ⟨⟩), fun _ member => absurd member List.not_mem_nil⟩
  have kept : ∀ h h', (debitParties ι K).env h h' → (entryCell ι K).version h' = (entryCell ι K).version h := by
    intro h h' fact
    obtain ⟨clock, dispatch, rfl⟩ | ⟨key, value, other, rfl⟩ := fact
    · rfl
    · simp only [entryCell, SharedData.get, h.shared.put_entry_ne value (Ne.symm other)]
  obtain ⟨known, ⟨inv, overtaken⟩, _⟩ := reach.invariant
    ((tries_preserved party anyStep).overtaken (entryCell ι K) Trying.attempts
      (fun _ _ _ _ _ may => may.vouched) (fun _ _ _ _ _ next => Trying.next_attempts next)
      (fun _ _ _ _ resumes => resumes) kept)
    ⟨_, ⟨start, fun i => Cell.overtaken_start h⟩, fun i => (party i).tries_follows (same i)⟩
  have bound : ∀ i, (known i).attempts.lost ≤ (otherWriters K i s.trace).card :=
    fun i => (overtaken i).lost.trans (foreign_le_otherWriters once)
  refine ⟨fun i => ?_, fun i released => ?_⟩
  · exact (overtaken i).counted.le.trans (bound i)
  · exact (inv.released i released).imp (inv.noted i) fun enough => enough.trans (bound i)

/-- Two threads of which one has to try again. -/
theorem debits_overtaken_raced :
    Overtakes limited.cacheKey.asString (fun _ => .filter (hitContext 2)) raced.trace := by
  have cached : limitedHost.shared.entry limited.cacheKey.asString = some (some (.application limited), 1) := rfl
  exact debits_overtaken cached rfl (fun _ => rfl) (Reach.play _ .start)

end
end ThreescaleCache
