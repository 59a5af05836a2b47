import ThreescaleCache.CalloutLock
import ThreescaleCache.Interaction.Moments

namespace ThreescaleCache
open Interaction

/-! The retry loop for a callout-lock is lock-free: a round is only repeated
because somebody else has written to the lock meanwhile. -/

def readsFrom (key : Str) : HostEvent → Bool
  | ⟨.getSharedData k, _⟩ => k = key
  | _ => false

/-- A write that is accepted, be it that of a value or an erasure. -/
def writesTo (key : Str) : HostEvent → Bool
  | ⟨.setSharedData k _ _, .ok ()⟩ => k = key
  | _ => false

section
variable {ι : Type} [DecidableEq ι]

/-- The writes to `key` that all others than `i` have made. -/
def foreignWrites (i : ι) (key : Str) (t : List (ι × HostEvent)) : Nat :=
  t.countP fun e => e.1 ≠ i && writesTo key e.2

/-- The context `i` makes its one call. The others are whatever else works on the
host, one program after the other; beside them everything but shared data may change. -/
def contending (i : ι) :
    Parties ι HostCall HostCall.Reply Host (Except UniqueCalloutError SetCalloutLockStatus) where
  exec := fun _ => Host.exec
  env := fun h h' => h'.shared = h.shared
  resume := fun j _ _ _ => j ≠ i

abbrev Contention (ι : Type) :=
  Config ι HostCall HostCall.Reply Host (Except UniqueCalloutError SetCalloutLockStatus)

/-- How the call of `i` for the lock on `key` is doing: each round that it had to
repeat was overtaken between its read and its write, its rounds and its calls are
bounded by the writes of the others, and so it returns. -/
structure LockFree (i : ι) (key : Str) (rounds : Nat) (s : Contention ι) : Prop where
  overtaken : ∀ before value cas after,
    s.trace = before ++ (i, ⟨.setSharedData key value cas, .error .casMismatch⟩) :: after →
    ∃ earlier r mid, before = earlier ++ (i, ⟨.getSharedData key, r⟩) :: mid ∧ (∀ e ∈ mid, e.1 ≠ i) ∧
      ∃ e ∈ mid, writesTo key e.2
  iterations : (callsOf i s.trace).countP (readsFrom key) ≤ foreignWrites i key s.trace + 1
  calls : (callsOf i s.trace).length ≤ 2 * foreignWrites i key s.trace + 4
  returns : foreignWrites i key s.trace < rounds → s.procs i ≠ .trap ∧ s.procs i ≠ .spin

end

/-! The rounds of the loop -/

/-- The version that a read has given, if the key was there. -/
def FitsRead (reading : Except Status (Option SharedValue × Option Nat)) (cas : Nat) : Prop :=
  ∃ value version, reading = .ok (value, version) ∧ ∀ seen ∈ version, seen = cas

theorem fitsRead_absent (value : Option SharedValue) (cas : Nat) : FitsRead (.ok (value, none)) cas :=
  ⟨value, none, rfl, by simp⟩

theorem fitsRead_version (value : Option SharedValue) (cas : Nat) : FitsRead (.ok (value, some cas)) cas :=
  ⟨value, some cas, rfl, by simp⟩

/-- Rounds that were repeated: their write did not find what they had read. -/
inductive Retries (key : Str) : Nat → List HostEvent → Prop
  | nil : Retries key 0 []
  | cons {n : Nat} {t : List HostEvent} {reading : Except Status (Option SharedValue × Option Nat)}
    {value : Option SharedValue} {cas : Nat} (fits : FitsRead reading cas) (rest : Retries key n t) :
    Retries key (n + 1)
      (⟨.getSharedData key, reading⟩ :: ⟨.setSharedData key value (some cas), .error .casMismatch⟩ :: t)

/-- The calls of a round that is not repeated. -/
structure LastRound (key : Str) (t : List HostEvent) : Prop where
  reads : t.countP (readsFrom key) ≤ 1
  calls : t.length ≤ 3
  settled : ∀ value cas, ⟨.setSharedData key value cas, .error .casMismatch⟩ ∉ t

section
variable {key : Str} {reading : Except Status (Option SharedValue × Option Nat)} {value : Option SharedValue}
  {cas : Option Nat} {reply : Except Status Unit} {context : CacheFilter}

theorem lastRound_nil (key : Str) : LastRound key [] := ⟨by simp, by simp, by simp⟩

theorem lastRound_read (reading : Except Status (Option SharedValue × Option Nat)) :
    LastRound key [⟨.getSharedData key, reading⟩] := ⟨by simp [readsFrom], by simp, by simp⟩

theorem lastRound_wrote (answered : reply ≠ .error .casMismatch) :
    LastRound key [⟨.getSharedData key, reading⟩, ⟨.setSharedData key value cas, reply⟩] := by
  refine ⟨by simp [readsFrom], by simp, fun value' cas' member => ?_⟩
  rcases List.mem_cons.mp member with first | second
  · cases first
  · cases List.mem_singleton.mp second
    exact answered rfl

theorem lastRound_waits (answered : reply ≠ .error .casMismatch) :
    LastRound key [⟨.getSharedData key, reading⟩, ⟨.setSharedData key value cas, reply⟩,
      ⟨.insertWaitingContext context, ()⟩] := by
  refine ⟨by simp [readsFrom], by simp, fun value' cas' member => ?_⟩
  rcases List.mem_cons.mp member with first | later
  · cases first
  · rcases List.mem_cons.mp later with second | third
    · cases second
      exact answered rfl
    · cases List.mem_singleton.mp third

end

section
variable {key : Str} {n : Nat} {t u : List HostEvent}

theorem Retries.count (retries : Retries key n t) : t.countP (readsFrom key) = n ∧ t.length = 2 * n := by
  induction retries with
  | nil => exact ⟨rfl, rfl⟩
  | cons _ _ ih =>
    obtain ⟨reads, length⟩ := ih
    rw [List.countP_cons_of_pos (by simp [readsFrom]), List.countP_cons_of_neg (by simp [readsFrom]), reads,
      List.length_cons, List.length_cons, length]
    exact ⟨rfl, by omega⟩

/-- A write that was refused is the end of a round, which began with a read. -/
theorem Retries.refused {before after : List HostEvent} {value : Option SharedValue} {cas : Option Nat}
    (retries : Retries key n t) (last : LastRound key u)
    (split : t ++ u = before ++ ⟨.setSharedData key value cas, .error .casMismatch⟩ :: after) :
    ∃ earlier reading version, before = earlier ++ [⟨.getSharedData key, reading⟩] ∧ cas = some version ∧
      FitsRead reading version := by
  induction retries generalizing before with
  | nil =>
    rw [List.nil_append] at split
    refine absurd ?_ (last.settled value cas)
    rw [split]
    exact List.mem_append_right _ List.mem_cons_self
  | @cons n t reading value' version fits rest ih =>
    match before with
    | [] => cases split
    | [first] =>
      cases split
      exact ⟨[], reading, version, rfl, rfl, fits⟩
    | first :: second :: before =>
      simp only [List.cons_append, List.cons.injEq] at split
      obtain ⟨rfl, rfl, split⟩ := split
      obtain ⟨earlier, reading', version', rfl, same, fits'⟩ := ih split
      exact ⟨_ :: _ :: earlier, reading', version', rfl, same, fits'⟩

variable {context : CacheFilter} {waiter : CalloutWaiter} {rounds : Nat} {seen : Option Nat}
  {q : HostProg (Except UniqueCalloutError SetCalloutLockStatus)}

/-- What the loop has done so far: some rounds that it had to repeat, and what it
has made of another one. -/
structure Tries (key : Str) (rounds : Nat) (t : List HostEvent)
    (q : HostProg (Except UniqueCalloutError SetCalloutLockStatus)) : Prop where
  split : ∃ n retried last, t = retried ++ last ∧ Retries key n retried ∧ LastRound key last ∧
    (q = .spin → rounds ≤ n)
  noTrap : q ≠ .trap

theorem Tries.of_call {c : HostCall} {k} (last : LastRound key t) : Tries key rounds t (.call c k) :=
  ⟨⟨0, [], t, rfl, .nil, last, by rintro ⟨⟩⟩, by rintro ⟨⟩⟩

theorem Tries.of_done {status} (last : LastRound key t) : Tries key rounds t (.done status) :=
  ⟨⟨0, [], t, rfl, .nil, last, by rintro ⟨⟩⟩, by rintro ⟨⟩⟩

theorem Tries.cons {reading : Except Status (Option SharedValue × Option Nat)} {value : Option SharedValue}
    {cas : Nat} (fits : FitsRead reading cas) (tries : Tries key rounds t q) :
    Tries key (rounds + 1)
      (⟨.getSharedData key, reading⟩ :: ⟨.setSharedData key value (some cas), .error .casMismatch⟩ :: t) q := by
  obtain ⟨⟨n, retried, last, rfl, retries, lastRound, spins⟩, noTrap⟩ := tries
  exact ⟨⟨n + 1, _, last, rfl, .cons fits retries, lastRound, fun same => Nat.succ_le_succ (spins same)⟩, noTrap⟩

/-- A round comes to an end with a status, or is repeated. -/
theorem setCalloutLockLoop_tries (path : Prog.Path (setCalloutLockLoop context key waiter rounds seen) t q) :
    Tries key rounds t q := by
  induction rounds generalizing seen t with
  | zero =>
    cases path
    exact ⟨⟨0, [], [], rfl, .nil, lastRound_nil key, fun _ => Nat.le_refl 0⟩, by rintro ⟨⟩⟩
  | succ rounds ih =>
    cases path with
    | start => exact .of_call (lastRound_nil key)
    | @next _ _ reading t _ path =>
      have read : LastRound key [⟨.getSharedData key, reading⟩] := lastRound_read reading
      match reading with
      | .error e =>
        cases path
        exact .of_done read
      | .ok (none, none) | .ok (some _, none) =>
        cases path with
        | start => exact .of_call read
        | @next _ _ reply t _ path =>
          match reply with
          | .error .casMismatch => exact (ih path).cons (fitsRead_absent _ 1)
          | .ok () | .error .notFound | .error .badArgument | .error .empty | .error .internalFailure =>
            cases path
            exact .of_done (lastRound_wrote (by simp))
      | .ok (some bytes, some cas) =>
        dsimp only [Prog.bind] at path
        cases lock : bytes.lock with
        | none =>
          rw [lock] at path
          cases path
          exact .of_done read
        | some stored =>
          rw [lock] at path
          cases path with
          | start => exact .of_call read
          | @next _ _ reply t _ path =>
            match reply with
            | .error .casMismatch => exact (ih path).cons (fitsRead_version _ cas)
            | .ok () | .error .notFound | .error .badArgument | .error .empty | .error .internalFailure =>
              cases path with
              | start => exact .of_call (lastRound_wrote (by simp))
              | next path =>
                cases path
                exact .of_done (lastRound_waits (by simp))
      | .ok (none, some cas) =>
        cases seen with
        | some owner =>
          cases path
          exact .of_done read
        | none =>
          cases path with
          | start => exact .of_call read
          | @next _ _ reply t _ path =>
            match reply with
            | .error .casMismatch => exact (ih path).cons (fitsRead_version _ cas)
            | .ok () | .error .notFound | .error .badArgument | .error .empty | .error .internalFailure =>
              cases path
              exact .of_done (lastRound_wrote (by simp))

/-- Before the loop the context asks for the id of its thread's queue. -/
theorem setCalloutLock_tries
    (path : Prog.Path (setCalloutLock rounds context) t q) : ∃ asked tried, t = asked ++ tried ∧
      asked.length ≤ 1 ∧ (∀ e ∈ asked, ∃ name queue, e = ⟨.resolveSharedQueue name, queue⟩) ∧
      Tries (calloutLockKey context.state.cacheKey) rounds tried q := by
  cases path with
  | start =>
    exact ⟨[], [], rfl, by simp, by simp, .of_call (lastRound_nil _)⟩
  | @next _ _ queue t _ path =>
    refine ⟨[⟨.resolveSharedQueue (threadQueueName context.rootId), queue⟩], t, rfl, by simp, ?_, ?_⟩
    · intro e member
      exact ⟨_, queue, List.mem_singleton.mp member⟩
    · cases queue with
      | none =>
        cases path
        exact .of_done (lastRound_nil _)
      | some queueId => exact setCalloutLockLoop_tries path

end

/-! What a refused write tells about the others -/

/-- Whenever a write of `i` is refused that has the version of an earlier read,
somebody has written in between. -/
def Overtaken {ι : Type} (i : ι) (key : Str) (t : List (ι × HostEvent)) : Prop :=
  ∀ earlier reading mid value cas after,
    t = earlier ++ (i, ⟨.getSharedData key, reading⟩) ::
      (mid ++ (i, ⟨.setSharedData key value (some cas), .error .casMismatch⟩) :: after) →
    FitsRead reading cas → ∃ e ∈ mid, writesTo key e.2

theorem SharedData.set_of_get {d : SharedData} {key : Str} {cas : Nat} (fits : FitsRead (.ok (d.get key)) cas)
    (value : Option SharedValue) : (d.set key value (some cas)).1 = .ok () := by
  obtain ⟨_, version, read, same⟩ := fits
  cases here : d.entry key with
  | none => rw [d.set_absent value (some cas) here]
  | some stored =>
    obtain ⟨_, cas'⟩ := stored
    rw [d.get_present here] at read
    cases read
    rw [same cas' rfl] at here
    rw [d.set_match value here]

section
variable {ι : Type} [DecidableEq ι] {i : ι} {key : Str} {init s : Contention ι}

/-- A read is true until somebody writes. -/
theorem read_until (key : Str) {guard : Contention ι → Contention ι → Prop} (reach : Reach (contending i) guard init s) :
    ∃ t, s.trace = init.trace ++ t ∧
      (s.shared.shared.get key = init.shared.shared.get key ∨ ∃ e ∈ t, writesTo key e.2) := by
  refine reach.until (p := fun h => h.shared.get key = init.shared.shared.get key)
    (A := fun e => writesTo key e = true) ?_ ?_ rfl
  · intro j c h still
    cases c with
    | setSharedData k value cas =>
      rcases h.shared.set_cases k value cas with put | refused
      · by_cases same : k = key
        · right
          subst same
          simp only [contending, Host.exec, put, writesTo, decide_true]
        · left
          have other : (h.shared.put k value).entry key = h.shared.entry key :=
            h.shared.put_entry_ne value (Ne.symm same)
          simp only [contending, Host.exec, put, SharedData.get, other]
          exact still
      · left
        simp only [contending, Host.exec, refused]
        exact still
    | _ => exact Or.inl still
  · intro h h' kept still
    have same : h'.shared = h.shared := kept
    rw [same]
    exact still

theorem reach_overtaken (fresh : init.trace = []) (reach : Reach (contending i) anyStep init s) :
    Overtaken i key s.trace := by
  intro earlier reading mid value cas after split fits
  have short : ∀ t : List (ι × HostEvent), init.trace.length ≤ t.length := fun t => by rw [fresh]; exact Nat.zero_le _
  have atWrite : s.trace = (earlier ++ (i, ⟨.getSharedData key, reading⟩) :: mid) ++
      (i, ⟨.setSharedData key value (some cas), .error .casMismatch⟩) :: after := by
    rw [split, List.append_assoc, List.cons_append]
  obtain ⟨s₂, _, reach₂, trace₂, _, refused, _⟩ := reach.split (short _) atWrite
  obtain ⟨s₁, k, _, trace₁, _, answered, between⟩ := reach₂.split (short earlier) trace₂
  obtain ⟨t, trace, kept | written⟩ := read_until key between
  · have read : reading = .ok (s₂.shared.shared.get key) := by
      rw [kept, answered]
      rfl
    rw [read] at fits
    have accepted := SharedData.set_of_get fits value
    cases refused.trans accepted
  · have same : mid = t := by
      have both := trace₂.symm.trans trace
      simp only [Config.called, trace₁, List.append_assoc, List.append_cancel_left_eq, List.singleton_append,
        List.cons.injEq] at both
      exact both.2
    rw [same]
    exact written

omit [DecidableEq ι] in
theorem Overtaken.suffix {t t' : List (ι × HostEvent)} (overtaken : Overtaken i key (t ++ t')) :
    Overtaken i key t' := by
  intro earlier reading mid value cas after split fits
  refine overtaken (t ++ earlier) reading mid value cas after ?_ fits
  rw [split, List.append_assoc]

theorem foreignWrites_append (i : ι) (key : Str) (t t' : List (ι × HostEvent)) :
    foreignWrites i key (t ++ t') = foreignWrites i key t + foreignWrites i key t' := List.countP_append

theorem foreignWrites_pos {t : List (ι × HostEvent)} {e : ι × HostEvent} (member : e ∈ t) (other : e.1 ≠ i)
    (writes : writesTo key e.2) : 0 < foreignWrites i key t :=
  List.countP_pos_iff.mpr ⟨e, member, by simp [other, writes]⟩

/-- The repeated rounds were overtaken by different writes. -/
theorem retries_le {t : List (ι × HostEvent)} {n : Nat} {retried last : List HostEvent}
    (overtaken : Overtaken i key t) (retries : Retries key n retried) (calls : callsOf i t = retried ++ last) :
    n ≤ foreignWrites i key t := by
  induction retries generalizing t with
  | nil => exact Nat.zero_le _
  | @cons n retried reading value cas fits rest ih =>
    obtain ⟨before, later, rfl, _, calls⟩ := callsOf_eq_cons calls
    obtain ⟨mid, after, rfl, alone, calls⟩ := callsOf_eq_cons calls
    obtain ⟨e, member, writes⟩ := overtaken before reading mid value cas after rfl fits
    have once := foreignWrites_pos member (alone e member) writes
    have front : before ++ (i, ⟨.getSharedData key, reading⟩) ::
          (mid ++ (i, ⟨.setSharedData key value (some cas), .error .casMismatch⟩) :: after) =
        (before ++ [(i, ⟨.getSharedData key, reading⟩)]) ++
          (mid ++ ([(i, ⟨.setSharedData key value (some cas), .error .casMismatch⟩)] ++ after)) := by
      simp only [List.append_assoc, List.singleton_append]
    rw [front] at overtaken ⊢
    have others := ih overtaken.suffix.suffix.suffix calls
    simp only [foreignWrites_append]
    omega

/-- The calls of `i` up to a split are those before the split. -/
theorem callsOf_split {t : List (ι × HostEvent)} {e : HostEvent} {u : List HostEvent}
    (calls : callsOf i t = u ++ [e]) : ∃ earlier mid, t = earlier ++ (i, e) :: mid ∧ ∀ x ∈ mid, x.1 ≠ i := by
  obtain ⟨front, back, rfl, _, calls⟩ := List.filterMap_eq_append_iff.mp calls
  obtain ⟨before, mid, rfl, _, alone⟩ := callsOf_eq_cons calls
  exact ⟨front ++ before, mid, (List.append_assoc front before _).symm, callsOf_eq_nil alone⟩

/-- A write that is refused follows on a read of its round. -/
theorem refused_after_read {asked retried last before after : List HostEvent} {n : Nat}
    {value : Option SharedValue} {cas : Option Nat}
    (asks : ∀ e ∈ asked, ∃ name queue, e = ⟨.resolveSharedQueue name, queue⟩) (retries : Retries key n retried)
    (lastRound : LastRound key last)
    (calls : before ++ ⟨.setSharedData key value cas, .error .casMismatch⟩ :: after = asked ++ (retried ++ last)) :
    ∃ u reading version, before = u ++ [⟨.getSharedData key, reading⟩] ∧ cas = some version ∧
      FitsRead reading version := by
  rcases List.append_eq_append_iff.mp calls with ⟨rest, same, tail⟩ | ⟨rest, same, tail⟩
  · cases rest with
    | nil =>
      have first : retried ++ last = [] ++ ⟨.setSharedData key value cas, .error .casMismatch⟩ :: after := tail.symm
      obtain ⟨earlier, _, _, none_, _⟩ := retries.refused lastRound first
      cases (List.append_eq_nil_iff.mp none_.symm).2
    | cons e rest =>
      -- the calls before the loop write nothing
      obtain ⟨rfl, _⟩ := List.cons.inj tail
      obtain ⟨name, queue, resolves⟩ := asks _ (same ▸ List.mem_append_right _ List.mem_cons_self)
      cases resolves
  · obtain ⟨earlier, reading, version, rfl, known, fits⟩ := retries.refused lastRound tail
    exact ⟨asked ++ earlier, reading, version, by rw [same, List.append_assoc], known, fits⟩

/-- However the calls of all are interleaved, and whatever is stored under the
lock's key, the call for the lock is lock-free. -/
theorem setCalloutLock_lockFree {context : CacheFilter} {rounds : Nat}
    (begins : init.procs i = setCalloutLock rounds context) (fresh : init.trace = [])
    (reach : Reach (contending i) anyStep init s) :
    LockFree i (calloutLockKey context.state.cacheKey) rounds s := by
  have path := reach.path (i := i) (fun _ _ _ other => other rfl) fresh
  rw [begins] at path
  obtain ⟨asked, tried, calls, short, asks, tries⟩ := setCalloutLock_tries path
  obtain ⟨⟨n, retried, last, rfl, retries, lastRound, spins⟩, noTrap⟩ := tries
  have overtaken : Overtaken i (calloutLockKey context.state.cacheKey) s.trace := reach_overtaken fresh reach
  obtain ⟨reads, length⟩ := retries.count
  have matched : n ≤ foreignWrites i (calloutLockKey context.state.cacheKey) s.trace := by
    obtain ⟨front, back, split, _, calls⟩ := List.filterMap_eq_append_iff.mp calls
    rw [split] at overtaken ⊢
    have le := retries_le overtaken.suffix retries calls
    rw [foreignWrites_append]
    omega
  refine ⟨?_, ?_, ?_, ?_⟩
  · intro before value cas after split
    have own := calls
    rw [split, callsOf_append, callsOf_cons_self] at own
    obtain ⟨u, reading, version, began, rfl, fits⟩ := refused_after_read asks retries lastRound own
    obtain ⟨earlier, mid, rfl, alone⟩ := callsOf_split began
    refine ⟨earlier, reading, mid, rfl, alone, ?_⟩
    rw [List.append_assoc, List.cons_append] at split
    exact overtaken earlier reading mid value version after split fits
  · rw [calls, List.countP_append, List.countP_append, reads]
    have none_ : asked.countP (readsFrom (calloutLockKey context.state.cacheKey)) = 0 := by
      refine List.countP_eq_zero.mpr fun e member => ?_
      obtain ⟨name, queue, rfl⟩ := asks e member
      simp [readsFrom]
    have once := lastRound.reads
    omega
  · rw [calls, List.length_append, List.length_append, length]
    have few := lastRound.calls
    omega
  · intro enough
    refine ⟨noTrap, fun spun => ?_⟩
    have all := spins spun
    omega

end

/-! A context whose write is overtaken by the owner that frees the lock. -/

def overtaken : CacheFilter :=
  { ({ id := 0, config := {} } : CacheFilterRoot).createHttpContext 1 with
    state.cacheKey := ⟨['s'], .appId ['a'] none⟩ }

def freedMeanwhile : Contention (Fin 2) where
  shared :=
    { shared := SharedData.empty.put (lockKey overtaken) (some (.calloutLock ⟨2, []⟩))
      queues := fun _ => []
      waiting := fun _ _ => none
      metrics := fun _ => 0
      queueIds := fun _ => some 7
      clock := some (.fromSecs 1000000)
      dispatch := .ok 1 }
  procs := fun j =>
    if j = 0 then setCalloutLock 2 overtaken
    else .call (.setSharedData (lockKey overtaken) none none) fun _ => .done (.ok .lockAcquired)
  trace := []

/-- It reads once more, and finds the lock free. -/
theorem lockFree_freedMeanwhile :
    (freedMeanwhile.play (contending 0) [0, 0, 1, 0, 0]).procs 0 = .done (.ok .responseCameFirst) ∧
      LockFree 0 (lockKey overtaken) 2
        (freedMeanwhile.play (contending 0) [0, 0, 1, 0, 0]) := by
  have begins : freedMeanwhile.procs 0 = setCalloutLock 2 overtaken := rfl
  exact ⟨rfl, setCalloutLock_lockFree begins rfl (.play _ .start)⟩

end ThreescaleCache
