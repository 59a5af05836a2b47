import ThreescaleCache.CalloutLock

namespace ThreescaleCache
open Interaction

variable {ι : Type} [DecidableEq ι]

/-! What one call does -/

/-- The calls of a context with their replies, as far as they depend on the
entry of its lock key, and the view and the shared data after them. -/
inductive LockEffect (self : Caller) (d : SharedData) : View → HostEvent → View → SharedData → Prop
  | resolve (queue : Option Nat) :
      LockEffect self d .start ⟨.resolveSharedQueue (threadQueueName self.context.rootId), queue⟩
        (if queue.isSome then .looking false else .failed) d
  | lookAbsent (seen : Bool) (here : d.entry self.key = none) :
      LockEffect self d (.looking seen) ⟨.getSharedData self.key, .ok (none, none)⟩ (.absent seen) d
  | lookHeld (seen : Bool) (v : CalloutLockValue) (cas : Nat)
      (here : d.entry self.key = some (some (.calloutLock v), cas)) :
      LockEffect self d (.looking seen)
        ⟨.getSharedData self.key, .ok (some (.calloutLock v), some cas)⟩ (.held v cas) d
  | lookFreed (cas : Nat) (here : d.entry self.key = some (none, cas)) :
      LockEffect self d (.looking true) ⟨.getSharedData self.key, .ok (none, some cas)⟩ .cameFirst d
  | lookFree (cas : Nat) (here : d.entry self.key = some (none, cas)) :
      LockEffect self d (.looking false) ⟨.getSharedData self.key, .ok (none, some cas)⟩ (.free cas) d
  | acquire (view : View) (cas : Nat) (fresh : ∀ x c, d.entry self.key ≠ some (some x, c))
      (from_ : view = .free cas ∨ ∃ seen, view = .absent seen) :
      LockEffect self d view
        ⟨.setSharedData self.key (some (.calloutLock self.newLock)) (some cas), .ok ()⟩
        .owner (d.put self.key (some (.calloutLock self.newLock)))
  | wait (v : CalloutLockValue) (cas queueId : Nat) (own : self.queue = some queueId)
      (here : d.entry self.key = some (some (.calloutLock v), cas)) :
      LockEffect self d (.held v cas)
        ⟨.setSharedData self.key (some (.calloutLock
          { v with waiters := v.waiters ++ [⟨queueId, self.context.contextId⟩] })) (some cas), .ok ()⟩
        .waiting (d.put self.key (some (.calloutLock
          { v with waiters := v.waiters ++ [⟨queueId, self.context.contextId⟩] })))
  | late (view : View) (value : Option SharedValue) (cas : Option Nat) (seen : Bool)
      (from_ : view = .absent seen ∨ (∃ v c, view = .held v c ∧ seen = true) ∨
        ∃ c, view = .free c ∧ seen = false) :
      LockEffect self d view ⟨.setSharedData self.key value cas, .error .casMismatch⟩
        (.looking seen) d
  | enter : LockEffect self d .waiting ⟨.insertWaitingContext self.context, ()⟩ .waiting d
  | read (v : CalloutLockValue) (cas : Nat)
      (here : d.entry self.key = some (some (.calloutLock v), cas)) :
      LockEffect self d .owner ⟨.getSharedData self.key, .ok (some (.calloutLock v), some cas)⟩
        (.notifying v.waiters) d
  | notify (waiter : CalloutWaiter) (rest : List CalloutWaiter) (action : WaiterAction) :
      LockEffect self d (.notifying (waiter :: rest))
        ⟨.enqueueSharedQueue waiter.queueId
          (.waiterAction (action.withContext waiter.httpContextId)), .ok ()⟩ (.notifying rest) d
  | erase : LockEffect self d (.notifying []) ⟨.setSharedData self.key none none, .ok ()⟩ .gone
      (d.put self.key none)

/-! Shared data and the views -/

/-- What a view knows of the entry that it has read. -/
def View.Knows (d : SharedData) (key : Str) : View → Prop
  | .held v cas => d.Pins key (some (.calloutLock v)) cas
  | .free cas => d.Pins key none cas
  | _ => True

theorem View.Knows.put {d : SharedData} {key : Str} {view : View} (knows : view.Knows d key)
    (other : Str) (value : Option SharedValue) : view.Knows (d.put other value) key := by
  cases view with
  | held v cas => exact SharedData.Pins.put knows other value
  | free cas => exact SharedData.Pins.put knows other value
  | _ => trivial

/-- A lock key holds a value exactly while one context owns it, and no entry
has the CAS 1. -/
structure LockTable (callers : ι → Caller) (d : SharedData) (view : ι → View) : Prop where
  counter : 2 ≤ d.nextCas
  notOne : ∀ i value cas, d.entry (callers i).key = some (value, cas) → cas ≠ 1
  stored : ∀ i x cas, d.entry (callers i).key = some (some x, cas) →
    ∃ v j, x = .calloutLock v ∧ (callers j).key = (callers i).key ∧ (view j).Owns
  owned : ∀ i, (view i).Owns →
    ∃ v cas, d.entry (callers i).key = some (some (.calloutLock v), cas)
  unique : ∀ i j, (callers i).key = (callers j).key → (view i).Owns → (view j).Owns → i = j
  knows : ∀ i, (view i).Knows d (callers i).key

variable {callers : ι → Caller} {d : SharedData} {view : ι → View}

omit [DecidableEq ι] in
theorem LockTable.effect {h : Host} (table : LockTable callers h.shared view)
    (queues : ∀ i, h.queueIds (threadQueueName (callers i).context.rootId) = (callers i).queue)
    {i : ι} {c : HostCall} (call : LockCall (callers i) (view i) c) :
    ∃ view', (view i).next (callers i) c (h.exec c).1 = some view' ∧
      LockEffect (callers i) h.shared (view i) ⟨c, (h.exec c).1⟩ view' (h.exec c).2.shared ∧
      (h.exec c).2.queueIds = h.queueIds := by
  have knows := table.knows i
  have stored := table.stored i
  have notOne := table.notOne i
  have owned := table.owned i
  generalize view i = here at call knows owned
  cases call with
  | resolve => exact ⟨_, if_pos (queues i), .resolve _, rfl⟩
  | look seen =>
    unfold Host.exec
    dsimp only
    cases entry : h.shared.entry (callers i).key with
    | none =>
      rw [SharedData.get_absent entry]
      exact ⟨_, rfl, .lookAbsent seen entry, rfl⟩
    | some found =>
      obtain ⟨value, cas⟩ := found
      rw [SharedData.get_present entry]
      cases value with
      | some x =>
        obtain ⟨v, _, rfl, _⟩ := stored x cas entry
        exact ⟨_, rfl, .lookHeld seen v cas entry, rfl⟩
      | none =>
        cases seen with
        | true => exact ⟨_, rfl, .lookFreed cas entry, rfl⟩
        | false => exact ⟨_, rfl, .lookFree cas entry, rfl⟩
  | insert seen =>
    unfold Host.exec
    dsimp only
    cases entry : h.shared.entry (callers i).key with
    | none =>
      rw [SharedData.set_absent _ _ entry]
      exact ⟨_, rfl, .acquire _ 1 (by simp [entry]) (Or.inr ⟨seen, rfl⟩), rfl⟩
    | some found =>
      obtain ⟨value, cas⟩ := found
      rw [SharedData.set_mismatch _ entry Nat.one_ne_zero (Ne.symm (notOne value cas entry))]
      exact ⟨_, rfl, .late _ _ _ seen (Or.inl rfl), rfl⟩
  | wait v cas queueId own =>
    unfold Host.exec
    dsimp only
    rcases SharedData.Pins.set knows (some (.calloutLock
        { v with waiters := v.waiters ++ [⟨queueId, (callers i).context.contextId⟩] }))
      with ⟨entry, set⟩ | set
    · rw [set]
      exact ⟨_, rfl, .wait v cas queueId own entry, rfl⟩
    · rw [set]
      exact ⟨_, rfl, .late _ _ _ true (Or.inr (Or.inl ⟨v, cas, rfl, rfl⟩)), rfl⟩
  | take cas =>
    unfold Host.exec
    dsimp only
    rcases SharedData.Pins.set knows (some (.calloutLock (callers i).newLock)) with ⟨entry, set⟩ | set
    · rw [set]
      exact ⟨_, rfl, .acquire _ cas (by simp [entry]) (Or.inl rfl), rfl⟩
    · rw [set]
      exact ⟨_, rfl, .late _ _ _ false (Or.inr (Or.inr ⟨cas, rfl, rfl⟩)), rfl⟩
  | enter => exact ⟨_, rfl, .enter, rfl⟩
  | read =>
    obtain ⟨v, cas, entry⟩ := owned trivial
    unfold Host.exec
    dsimp only
    rw [SharedData.get_present entry]
    exact ⟨_, rfl, .read v cas entry, rfl⟩
  | notify waiter rest action => exact ⟨_, rfl, .notify waiter rest action, rfl⟩
  | erase =>
    unfold Host.exec
    dsimp only
    rw [SharedData.set_overwrite h.shared _ none rfl]
    exact ⟨_, rfl, .erase, rfl⟩

/-- A call that leaves shared data alone and does not change hands. -/
theorem LockTable.quiet (table : LockTable callers d view) (i : ι) {view' : View}
    (owns : view'.Owns ↔ (view i).Owns) (knows : view'.Knows d (callers i).key) :
    LockTable callers d (Function.update view i view') := by
  have ownership : ∀ j, (Function.update view i view' j).Owns ↔ (view j).Owns := by
    intro j
    by_cases same : j = i
    · subst same
      rw [Function.update_self, owns]
    · rw [Function.update_of_ne same]
  refine ⟨table.counter, table.notOne, ?_, ?_, ?_, ?_⟩
  · intro j x cas here
    obtain ⟨v, k, lock, sameKey, own⟩ := table.stored j x cas here
    exact ⟨v, k, lock, sameKey, (ownership k).mpr own⟩
  · exact fun j own => table.owned j ((ownership j).mp own)
  · exact fun j k sameKey first second =>
      table.unique j k sameKey ((ownership j).mp first) ((ownership k).mp second)
  · intro j
    by_cases same : j = i
    · subst same
      rw [Function.update_self]
      exact knows
    · rw [Function.update_of_ne same]
      exact table.knows j

/-- A write of a context to its own lock key, which leaves the key with a
value exactly if one context owns it. -/
theorem LockTable.write (table : LockTable callers d view) (i : ι) {view' : View}
    {value : Option SharedValue} (knows : ∀ d', view'.Knows d' (callers i).key)
    (lock : ∀ x, value = some x → (∃ v, x = .calloutLock v) ∧
      ∃ j, (callers j).key = (callers i).key ∧ (Function.update view i view' j).Owns)
    (kept : ∀ j, (callers j).key = (callers i).key → (Function.update view i view' j).Owns →
      ∃ v, value = some (.calloutLock v))
    (unique : ∀ j k, (callers j).key = (callers i).key → (callers k).key = (callers i).key →
      (Function.update view i view' j).Owns → (Function.update view i view' k).Owns → j = k) :
    LockTable callers (d.put (callers i).key value) (Function.update view i view') := by
  have other : ∀ j, (callers j).key ≠ (callers i).key → Function.update view i view' j = view j :=
    fun j different => Function.update_of_ne (fun same => different (congrArg _ (congrArg _ same))) ..
  refine ⟨?_, ?_, ?_, ?_, ?_, ?_⟩
  · have := table.counter
    simp only [SharedData.put_nextCas]
    omega
  · intro j x cas here
    by_cases same : (callers j).key = (callers i).key
    · rw [same, SharedData.put_entry_self] at here
      cases here
      have := table.counter
      omega
    · rw [SharedData.put_entry_ne _ _ same] at here
      exact table.notOne j x cas here
  · intro j x cas here
    by_cases same : (callers j).key = (callers i).key
    · rw [same, SharedData.put_entry_self] at here
      obtain ⟨⟨v, is⟩, k, sameKey, own⟩ := lock x (congrArg Prod.fst (Option.some.inj here))
      exact ⟨v, k, is, sameKey.trans same.symm, own⟩
    · rw [SharedData.put_entry_ne _ _ same] at here
      obtain ⟨v, k, is, sameKey, own⟩ := table.stored j x cas here
      refine ⟨v, k, is, sameKey, ?_⟩
      rw [other k (sameKey.trans_ne same)]
      exact own
  · intro j own
    by_cases same : (callers j).key = (callers i).key
    · obtain ⟨v, is⟩ := kept j same own
      exact ⟨v, d.nextCas, by rw [same, SharedData.put_entry_self, is]⟩
    · rw [other j same] at own
      obtain ⟨v, cas, here⟩ := table.owned j own
      exact ⟨v, cas, by rw [SharedData.put_entry_ne _ _ same, here]⟩
  · intro j k sameKey first second
    by_cases same : (callers j).key = (callers i).key
    · exact unique j k same (sameKey.symm.trans same) first second
    · rw [other j same] at first
      rw [other k (sameKey.symm.trans_ne same)] at second
      exact table.unique j k sameKey first second
  · intro j
    by_cases same : j = i
    · subst same
      rw [Function.update_self]
      exact knows _
    · rw [Function.update_of_ne same]
      exact (table.knows j).put _ _

/-- Every call of a context keeps the table of locks. -/
theorem LockTable.step (table : LockTable callers d view) {i : ι} {e : HostEvent} {view' : View}
    {d' : SharedData} (effect : LockEffect (callers i) d (view i) e view' d') :
    LockTable callers d' (Function.update view i view') := by
  have self : Function.update view i view' i = view' := Function.update_self ..
  have others : ∀ j, j ≠ i → Function.update view i view' j = view j :=
    fun j different => Function.update_of_ne different ..
  have own := table.unique i
  have quiet : (view'.Owns ↔ (view i).Owns) → view'.Knows d (callers i).key →
      LockTable callers d (Function.update view i view') := table.quiet i
  generalize here : view i = before at effect own quiet
  cases effect with
  | resolve queue =>
    cases queue with
    | none => exact quiet Iff.rfl trivial
    | some queueId => exact quiet Iff.rfl trivial
  | lookAbsent => exact quiet Iff.rfl trivial
  | lookHeld seen v cas entry =>
    exact quiet Iff.rfl (SharedData.pins_of_entry entry)
  | lookFreed => exact quiet Iff.rfl trivial
  | lookFree cas entry =>
    exact quiet Iff.rfl (SharedData.pins_of_entry entry)
  | late _ value cas seen from_ =>
    rcases from_ with rfl | ⟨v, c, rfl, _⟩ | ⟨c, rfl, _⟩ <;> exact quiet Iff.rfl trivial
  | enter => exact quiet Iff.rfl trivial
  | read => exact quiet Iff.rfl trivial
  | notify => exact quiet Iff.rfl trivial
  | acquire _ cas fresh from_ =>
    -- nobody owned the lock before, so the new owner is the only one
    have only : ∀ j, (callers j).key = (callers i).key →
        (Function.update view i .owner j).Owns → j = i := by
      intro j same owns
      by_contra different
      rw [others j different] at owns
      obtain ⟨v, c, entry⟩ := table.owned j owns
      exact fresh _ c (same ▸ entry)
    refine table.write i (fun _ => trivial) ?_ ?_ ?_
    · rintro x ⟨⟩
      exact ⟨⟨_, rfl⟩, i, rfl, by rw [self]; trivial⟩
    · exact fun _ _ _ => ⟨_, rfl⟩
    · exact fun j k same same' owns owns' => (only j same owns).trans (only k same' owns').symm
  | wait v cas queueId _ entry =>
    have still : ∀ j, (Function.update view i .waiting j).Owns → (view j).Owns := by
      intro j owns
      by_cases same : j = i
      · subst same
        rw [self] at owns
        exact False.elim owns
      · rw [others j same] at owns
        exact owns
    refine table.write i (fun _ => trivial) ?_ ?_ ?_
    · rintro x ⟨⟩
      obtain ⟨_, j, _, same, owns⟩ := table.stored i _ _ entry
      have different : j ≠ i := by
        intro same
        subst same
        rw [here] at owns
        exact owns
      exact ⟨⟨_, rfl⟩, j, same, by rw [others j different]; exact owns⟩
    · exact fun _ _ _ => ⟨_, rfl⟩
    · exact fun j k same same' owns owns' =>
        table.unique j k (same.trans same'.symm) (still j owns) (still k owns')
  | erase =>
    have nobody : ∀ j, (callers j).key = (callers i).key → ¬(Function.update view i .gone j).Owns := by
      intro j same owns
      by_cases mine : j = i
      · subst mine
        rw [self] at owns
        exact owns
      · rw [others j mine] at owns
        exact mine (own j same.symm trivial owns).symm
    refine table.write i (fun _ => trivial) ?_ ?_ ?_
    · rintro x ⟨⟩
    · exact fun j same owns => absurd owns (nobody j same)
    · exact fun j _ same _ owns _ => absurd owns (nobody j same)

/-! The calls so far and the views -/

structure LockLog (callers : ι → Caller) (t : LockTrace ι) (view : ι → View) : Prop where
  acquired : ∀ i key, Did t i (Acquires key) ↔
    key = (callers i).key ∧ ((view i).Owns ∨ view i = .gone)
  erased : ∀ i key, Did t i (Erases key) ↔ key = (callers i).key ∧ view i = .gone

variable {t : LockTrace ι}

omit [DecidableEq ι] in
theorem LockLog.holds_iff (log : LockLog callers t view) {key : Str} {i : ι} :
    Holds t key i ↔ key = (callers i).key ∧ (view i).Owns := by
  unfold Holds
  rw [log.acquired, log.erased]
  constructor
  · intro fact
    obtain ⟨⟨same, owns | gone⟩, not⟩ := fact
    · exact ⟨same, owns⟩
    · exact absurd ⟨same, gone⟩ not
  · intro fact
    obtain ⟨same, owns⟩ := fact
    refine ⟨⟨same, Or.inl owns⟩, fun ⟨_, gone⟩ => ?_⟩
    rw [gone] at owns
    exact owns

theorem LockEffect.acquires_iff {self : Caller} {before after : View} {e : HostEvent}
    {d' : SharedData} (effect : LockEffect self d before e after d') (key : Str) :
    Acquires key e ↔ key = self.key ∧ (after.Owns ∧ ¬before.Owns) := by
  unfold Acquires
  cases effect with
  | acquire _ cas fresh from_ =>
    have notOwner : ¬before.Owns := by
      rcases from_ with rfl | ⟨seen, rfl⟩ <;> exact id
    constructor
    · intro fact
      obtain ⟨v, cas', _, same⟩ := fact
      cases same
      exact ⟨rfl, trivial, notOwner⟩
    · intro fact
      obtain ⟨rfl, _⟩ := fact
      exact ⟨self.newLock, some cas, rfl, rfl⟩
  | wait v cas queueId =>
    refine ⟨?_, fun ⟨_, owns, _⟩ => False.elim owns⟩
    intro fact
    obtain ⟨v', cas', none_, same⟩ := fact
    cases same
    exact absurd none_ (List.append_ne_nil_of_right_ne_nil _ (List.cons_ne_nil _ _))
  | resolve queue =>
    refine ⟨by rintro ⟨_, _, _, ⟨⟩⟩, fun ⟨_, owns, _⟩ => ?_⟩
    cases queue <;> exact False.elim owns
  | notify | read =>
    exact ⟨by rintro ⟨_, _, _, ⟨⟩⟩, fun ⟨_, _, not⟩ => absurd trivial not⟩
  | lookAbsent | lookHeld | lookFreed | lookFree | late | enter | erase =>
    exact ⟨by rintro ⟨_, _, _, ⟨⟩⟩, fun ⟨_, owns, _⟩ => False.elim owns⟩

theorem LockEffect.erases_iff {self : Caller} {before after : View} {e : HostEvent}
    {d' : SharedData} (effect : LockEffect self d before e after d') (key : Str) :
    Erases key e ↔ key = self.key ∧ after = .gone := by
  unfold Erases
  cases effect with
  | erase =>
    constructor
    · rintro ⟨⟩
      exact ⟨rfl, rfl⟩
    · intro fact
      obtain ⟨rfl, _⟩ := fact
      rfl
  | resolve queue =>
    refine ⟨by rintro ⟨⟩, fun ⟨_, gone⟩ => ?_⟩
    cases queue <;> cases gone
  | _ => exact ⟨by rintro ⟨⟩, by rintro ⟨_, ⟨⟩⟩⟩

/-- Ownership is gained by acquiring, lost by erasing. -/
theorem LockEffect.owns_or_gone {self : Caller} {before after : View} {e : HostEvent}
    {d' : SharedData} (effect : LockEffect self d before e after d') :
    before ≠ .gone ∧ (before.Owns → after.Owns ∨ after = .gone) ∧ (after = .gone → before.Owns) := by
  cases effect with
  | resolve queue =>
    refine ⟨by rintro ⟨⟩, False.elim, fun gone => ?_⟩
    cases queue <;> cases gone
  | acquire _ cas fresh from_ => rcases from_ with rfl | ⟨seen, rfl⟩ <;> simp [View.Owns]
  | late _ _ _ _ from_ => rcases from_ with rfl | ⟨_, _, rfl, _⟩ | ⟨_, rfl, _⟩ <;> simp [View.Owns]
  | _ => simp [View.Owns]

theorem LockLog.step (log : LockLog callers t view) {i : ι} {e : HostEvent} {view' : View}
    {d' : SharedData} (effect : LockEffect (callers i) d (view i) e view' d') :
    LockLog callers (t ++ [(i, e)]) (Function.update view i view') := by
  obtain ⟨notGone, keeps, loses⟩ := effect.owns_or_gone
  refine ⟨fun j key => ?_, fun j key => ?_⟩
  · rw [did_append, log.acquired, effect.acquires_iff]
    by_cases same : j = i
    · subst same
      rw [Function.update_self]
      by_cases owns : (view j).Owns <;> simp only [owns, notGone, true_and, not_true_eq_false,
        not_false_eq_true, and_true, and_false, or_false, false_or]
      · exact ⟨fun same => ⟨same, keeps owns⟩, And.left⟩
      · exact ⟨fun ⟨same, owns'⟩ => ⟨same, Or.inl owns'⟩,
          fun ⟨same, owns'⟩ => ⟨same, owns'.resolve_right fun gone => owns (loses gone)⟩⟩
    · simp only [Function.update_of_ne same, same, false_and, or_false]
  · rw [did_append, log.erased, effect.erases_iff]
    by_cases same : j = i
    · subst same
      simp only [Function.update_self, notGone, and_false, true_and, false_or]
    · simp only [Function.update_of_ne same, same, false_and, or_false]

/-! What a context has met on its way -/

/-- It has read the lock while some context held it. -/
def SawHeld (t : LockTrace ι) (key : Str) (i : ι) : Prop :=
  ∃ t₁ t₂ v cas j, t = t₁ ++ (i, ⟨.getSharedData key, .ok (some (.calloutLock v), some cas)⟩) :: t₂ ∧
    Holds t₁ key j

/-- Between two of its reads, the context that held the lock has freed it. -/
def SawFreed (t : LockTrace ι) (key : Str) (i : ι) : Prop :=
  ∃ t₁ t₂ t₃ v cas cas' j,
    t = t₁ ++ (i, ⟨.getSharedData key, .ok (some (.calloutLock v), some cas)⟩) ::
      (t₂ ++ (i, ⟨.getSharedData key, .ok (none, some cas')⟩) :: t₃) ∧
    Holds t₁ key j ∧ Did t₂ j (Erases key)

/-- It has added itself to the waiters while some context held the lock. -/
def AddedWhileHeld (t : LockTrace ι) (self : Caller) (i : ι) : Prop :=
  ∃ (t₁ t₂ : LockTrace ι) (v : CalloutLockValue) (cas : Option Nat) (queueId : Nat) (j : ι),
    self.queue = some queueId ∧ t = t₁ ++ (i, ⟨.setSharedData self.key (some (.calloutLock
      { v with waiters := v.waiters ++ [⟨queueId, self.context.contextId⟩] })) cas, .ok ()⟩) :: t₂ ∧
    Holds t₁ self.key j

omit [DecidableEq ι] in
theorem SawHeld.append {key : Str} {i : ι} (saw : SawHeld t key i) (t' : LockTrace ι) :
    SawHeld (t ++ t') key i := by
  obtain ⟨t₁, t₂, v, cas, j, split, holds⟩ := saw
  exact ⟨t₁, t₂ ++ t', v, cas, j, by rw [split, List.append_assoc, List.cons_append], holds⟩

omit [DecidableEq ι] in
theorem SawFreed.append {key : Str} {i : ι} (saw : SawFreed t key i) (t' : LockTrace ι) :
    SawFreed (t ++ t') key i := by
  obtain ⟨t₁, t₂, t₃, v, cas, cas', j, split, rest⟩ := saw
  exact ⟨t₁, t₂, t₃ ++ t', v, cas, cas', j, by simp only [split, List.append_assoc, List.cons_append],
    rest⟩

omit [DecidableEq ι] in
theorem AddedWhileHeld.append {self : Caller} {i : ι} (added : AddedWhileHeld t self i)
    (t' : LockTrace ι) : AddedWhileHeld (t ++ t') self i := by
  obtain ⟨t₁, t₂, v, cas, queueId, j, own, split, holds⟩ := added
  exact ⟨t₁, t₂ ++ t', v, cas, queueId, j, own,
    by rw [split, List.append_assoc, List.cons_append], holds⟩

/-- A context has seen the lock held in this or in an earlier round. -/
def View.HasSeen : View → Prop
  | .looking seen => seen = true
  | .absent seen => seen = true
  | .held _ _ => True
  | _ => False

structure LockPast (callers : ι → Caller) (t : LockTrace ι) (view : ι → View) : Prop where
  saw : ∀ i, (view i).HasSeen → SawHeld t (callers i).key i
  cameFirst : ∀ i, view i = .cameFirst → SawFreed t (callers i).key i
  waiting : ∀ i, view i = .waiting → AddedWhileHeld t (callers i) i

/-- One context has moved, the others know what they knew. -/
theorem LockPast.moved (past : LockPast callers t view) {i : ι} {e : HostEvent} {view' : View}
    (saw : view'.HasSeen → SawHeld (t ++ [(i, e)]) (callers i).key i)
    (cameFirst : view' = .cameFirst → SawFreed (t ++ [(i, e)]) (callers i).key i)
    (waiting : view' = .waiting → AddedWhileHeld (t ++ [(i, e)]) (callers i) i) :
    LockPast callers (t ++ [(i, e)]) (Function.update view i view') := by
  refine ⟨fun j => ?_, fun j => ?_, fun j => ?_⟩ <;> by_cases same : j = i
  · subst same
    rwa [Function.update_self]
  · rw [Function.update_of_ne same]
    exact fun seen => (past.saw j seen).append _
  · subst same
    rwa [Function.update_self]
  · rw [Function.update_of_ne same]
    exact fun came => (past.cameFirst j came).append _
  · subst same
    rwa [Function.update_self]
  · rw [Function.update_of_ne same]
    exact fun added => (past.waiting j added).append _

omit [DecidableEq ι] in
/-- An entry with a value is held. -/
theorem LockTable.held (table : LockTable callers d view) (log : LockLog callers t view) {i : ι}
    {x : SharedValue} {cas : Nat} (here : d.entry (callers i).key = some (some x, cas)) :
    ∃ j, Holds t (callers i).key j := by
  obtain ⟨_, j, _, same, owns⟩ := table.stored i x cas here
  exact ⟨j, log.holds_iff.mpr ⟨same.symm, owns⟩⟩

omit [DecidableEq ι] in
/-- Whoever held a lock that is free by now has freed it since. -/
theorem SawHeld.freed {i : ι} (saw : SawHeld t (callers i).key i)
    (table : LockTable callers d view) (log : LockLog callers t view) {cas : Nat}
    (here : d.entry (callers i).key = some (none, cas)) :
    SawFreed (t ++ [(i, ⟨.getSharedData (callers i).key, .ok (none, some cas)⟩)]) (callers i).key i := by
  obtain ⟨t₁, t₂, v, cas₁, j, rfl, acquired, kept⟩ := saw
  have erased : Did (t₁ ++ (i, ⟨.getSharedData (callers i).key,
      .ok (some (.calloutLock v), some cas₁)⟩) :: t₂) j (Erases (callers i).key) := by
    by_contra still
    obtain ⟨same, owns⟩ := log.holds_iff.mp ⟨acquired.mono, still⟩
    obtain ⟨_, _, entry⟩ := table.owned j owns
    rw [← same, here] at entry
    cases entry
  obtain ⟨e, member, erases⟩ := erased
  refine ⟨t₁, t₂, [], v, cas₁, cas, j, by simp, ⟨acquired, kept⟩, e, ?_, erases⟩
  rcases List.mem_append.mp member with old | rest
  · exact absurd ⟨e, old, erases⟩ kept
  · rcases List.mem_cons.mp rest with same | later
    · cases same
      cases erases
    · exact later

theorem LockPast.step (past : LockPast callers t view) (table : LockTable callers d view)
    (log : LockLog callers t view) {i : ι} {e : HostEvent} {view' : View} {d' : SharedData}
    (effect : LockEffect (callers i) d (view i) e view' d') :
    LockPast callers (t ++ [(i, e)]) (Function.update view i view') := by
  have saw := past.saw i
  generalize here : view i = before at effect saw
  cases effect with
  | resolve queue =>
    cases queue with
    | none => exact past.moved False.elim (by rintro ⟨⟩) (by rintro ⟨⟩)
    | some => exact past.moved (by rintro ⟨⟩) (by rintro ⟨⟩) (by rintro ⟨⟩)
  | lookAbsent seen => exact past.moved (fun seen => (saw seen).append _) (by rintro ⟨⟩) (by rintro ⟨⟩)
  | lookHeld seen v cas entry =>
    obtain ⟨j, holds⟩ := table.held log entry
    exact past.moved (fun _ => ⟨t, [], v, cas, j, rfl, holds⟩) (by rintro ⟨⟩) (by rintro ⟨⟩)
  | lookFreed cas entry =>
    exact past.moved False.elim (fun _ => (saw rfl).freed table log entry) (by rintro ⟨⟩)
  | lookFree => exact past.moved False.elim (by rintro ⟨⟩) (by rintro ⟨⟩)
  | acquire => exact past.moved False.elim (by rintro ⟨⟩) (by rintro ⟨⟩)
  | wait v cas queueId own entry =>
    obtain ⟨j, holds⟩ := table.held log entry
    exact past.moved False.elim (by rintro ⟨⟩) fun _ => ⟨t, [], v, some cas, queueId, j, own, rfl, holds⟩
  | late _ _ _ seen from_ =>
    refine past.moved (fun seen_ => SawHeld.append (saw ?_) _) (by rintro ⟨⟩) (by rintro ⟨⟩)
    rcases from_ with rfl | ⟨v, c, rfl, _⟩ | ⟨c, rfl, rfl⟩
    · exact seen_
    · trivial
    · cases seen_
  | enter => exact past.moved False.elim (by rintro ⟨⟩) fun _ => (past.waiting i here).append _
  | read => exact past.moved False.elim (by rintro ⟨⟩) (by rintro ⟨⟩)
  | notify => exact past.moved False.elim (by rintro ⟨⟩) (by rintro ⟨⟩)
  | erase => exact past.moved False.elim (by rintro ⟨⟩) (by rintro ⟨⟩)

/-! All interleavings -/

/-- The contexts as callers, with the queues that the host resolves. -/
def callersOf (context : ι → CacheFilter) (h : Host) (i : ι) : Caller :=
  ⟨context i, h.queueIds (threadQueueName (context i).rootId)⟩

structure LockInv (callers : ι → Caller) (h : Host) (t : LockTrace ι) (view : ι → View) : Prop where
  queues : ∀ i, h.queueIds (threadQueueName (callers i).context.rootId) = (callers i).queue
  table : LockTable callers h.shared view
  log : LockLog callers t view
  past : LockPast callers t view

omit [DecidableEq ι] in
theorem lockInv_start {context : ι → CacheFilter} {h : Host} (free : LocksFree context h) :
    LockInv (callersOf context h) h [] fun _ => .start := by
  refine ⟨fun _ => rfl, ⟨free.counter, ?_, ?_, ?_, ?_, ?_⟩, ⟨?_, ?_⟩, ⟨?_, ?_, ?_⟩⟩
  · exact fun i value cas here => (free.free i value cas here).2
  · exact fun i x cas here => by cases (free.free i (some x) cas here).1
  · exact fun _ owns => False.elim owns
  · exact fun _ _ _ owns => False.elim owns
  · exact fun _ => trivial
  · simp [Did, View.Owns]
  · simp [Did]
  · exact fun _ => False.elim
  · rintro _ ⟨⟩
  · rintro _ ⟨⟩

omit [DecidableEq ι] in
theorem LockInv.env {context : ι → CacheFilter} {h h' : Host} {t : LockTrace ι} {view : ι → View}
    (sameContext : ∀ i, (callers i).context = context i) (inv : LockInv callers h t view)
    (env : Host.Env h h' ∨ ∃ key value, (∀ i, key ≠ lockKey (context i)) ∧
      h' = { h with shared := h.shared.put key value }) : LockInv callers h' t view := by
  rcases env with ⟨clock, dispatch, rfl⟩ | ⟨key, value, other, rfl⟩
  · exact ⟨inv.queues, inv.table, inv.log, inv.past⟩
  · have kept : ∀ i, (h.shared.put key value).entry (callers i).key =
        h.shared.entry (callers i).key := by
      intro i
      refine h.shared.put_entry_ne value fun same => other i ?_
      rw [← same, Caller.key, sameContext]
    have table := inv.table
    refine ⟨inv.queues, ⟨?_, ?_, ?_, ?_, table.unique, fun i => (table.knows i).put _ _⟩, inv.log,
      inv.past⟩
    · have := table.counter
      simp only [SharedData.put_nextCas]
      omega
    · simpa only [kept] using table.notOne
    · simpa only [kept] using table.stored
    · simpa only [kept] using table.owned

theorem lock_preserved (context : ι → CacheFilter) (h₀ : Host)
    (guard : LockConfig ι → LockConfig ι → Prop) :
    Preserved (lockParties context) guard (fun i => locking (callersOf context h₀ i))
      (fun _ => View.Returned) fun s => LockInv (callersOf context h₀) s.shared s.trace where
  call := by
    intro s view i c k inv _ may _
    obtain ⟨view', known, effect, queues⟩ := inv.table.effect inv.queues may
    refine ⟨view', known, ?_, inv.table.step effect, inv.log.step effect,
      inv.past.step inv.table inv.log effect⟩
    intro j
    show (Host.exec c s.shared).2.queueIds _ = _
    rw [queues]
    exact inv.queues j
  resume := by
    intro s view i result p inv _ returned fact _
    obtain ⟨rfl, action, rfl⟩ := fact
    have owner : view i = .owner := returned
    refine ⟨.owner, locking_freeCalloutLock (callersOf context h₀ i) action, ?_⟩
    rw [← owner, Function.update_eq_self]
    exact inv
  env := fun s view h' inv env => inv.env (fun _ => rfl) env

/-- Every interleaving reaches states in which each context follows the
protocol with a view that the lock table and the calls bear out. -/
theorem lock_invariant {context : ι → CacheFilter} {rounds : ι → Nat} {h₀ : Host}
    {guard : LockConfig ι → LockConfig ι → Prop} {s : LockConfig ι} (free : LocksFree context h₀)
    (reach : Reach (lockParties context) guard (lockStart context rounds h₀) s) :
    ∃ view, LockInv (callersOf context h₀) s.shared s.trace view ∧
      ∀ i, Follows (locking (callersOf context h₀ i)) View.Returned (s.procs i) (view i) :=
  reach.invariant (lock_preserved context h₀ guard)
    ⟨fun _ => .start, lockInv_start free,
      fun i => locking_setCalloutLock (callersOf context h₀ i) (rounds i)⟩

/-- What the three outcomes of `set_callout_lock` mean in a state. -/
structure LockSound (context : ι → CacheFilter) (h₀ : Host) (s : LockConfig ι) : Prop where
  exclusive : ∀ key i j, Holds s.trace key i → Holds s.trace key j → i = j
  acquired : ∀ i, s.procs i = .done (.tried (.ok .lockAcquired)) → Holds s.trace (lockKey (context i)) i
  added : ∀ i, s.procs i = .done (.tried (.ok .addedToWaitlist)) →
    AddedWhileHeld s.trace (callersOf context h₀ i) i
  cameFirst : ∀ i, s.procs i = .done (.tried (.ok .responseCameFirst)) →
    SawFreed s.trace (lockKey (context i)) i

/-- The callout lock is sound in every interleaving. -/
theorem calloutLock_sound {context : ι → CacheFilter} {rounds : ι → Nat} {h₀ : Host}
    {s : LockConfig ι} (free : LocksFree context h₀)
    (reach : Reach (lockParties context) anyStep (lockStart context rounds h₀) s) :
    LockSound context h₀ s := by
  obtain ⟨view, inv, follows⟩ := lock_invariant free reach
  have returned : ∀ {i result}, s.procs i = .done result → (view i).Returned result := by
    intro i result done
    have here := follows i
    rw [done] at here
    exact here
  refine ⟨?_, ?_, ?_, ?_⟩
  · intro key i j first second
    obtain ⟨same, owns⟩ := inv.log.holds_iff.mp first
    obtain ⟨same', owns'⟩ := inv.log.holds_iff.mp second
    exact inv.table.unique i j (same.symm.trans same') owns owns'
  · intro i done
    have owner : view i = .owner := returned done
    exact inv.log.holds_iff.mpr ⟨rfl, by rw [owner]; trivial⟩
  · exact fun i done => inv.past.waiting i (returned done)
  · exact fun i done => inv.past.cameFirst i (returned done)

/-- A host whose CAS counter was used by another key, with a queue for each thread. -/
def usedHost : Host where
  shared := SharedData.empty.put sharedMemoryCounterKey (some (.memoryCounter sharedMemoryInitialSize))
  queues := fun _ => []
  waiting := fun _ _ => none
  metrics := fun _ => 0
  queueIds := fun name => some (name.map Char.toNat).sum
  clock := some (.fromSecs 1000000)
  dispatch := .ok 1

/-- Two requests for one application, in two threads. -/
def rivals (second : Bool) : CacheFilter :=
  let root : CacheFilterRoot := { id := if second then 1 else 0, config := {} }
  { root.createHttpContext (if second then 2 else 1) with state.cacheKey := ⟨['s'], .appId ['a'] none⟩ }

theorem rivals_locksFree : LocksFree rivals usedHost where
  counter := by decide
  free := by
    intro i value cas here
    have absent : usedHost.shared.entry (lockKey (rivals i)) = none := by cases i <;> decide
    rw [absent] at here
    cases here

/-- The first context acquires the lock, the second one is added to its waiters. -/
def acquiredAndAwaited : LockConfig Bool :=
  (lockStart rivals (fun _ => 1) usedHost).play (lockParties rivals)
    [false, false, false, true, true, true, true]

theorem acquiredAndAwaited_sound : LockSound rivals usedHost acquiredAndAwaited :=
  calloutLock_sound rivals_locksFree (Reach.play _ .start)

example : (acquiredAndAwaited.shared.shared.value (lockKey (rivals true))).isSome := by decide

end ThreescaleCache
