import ThreescaleCache.EntryCell
import ThreescaleCache.Filing

namespace ThreescaleCache
open Interaction

/-! The counter of the used memory under concurrent writes to the cache. -/

/-- A call of `set_application_to_cache`. -/
structure CacheWrite where
  key : Str
  app : Application
  cas : Nat

namespace CacheWrite

def program (w : CacheWrite) : HostProg (Except SetFailure Unit) := setApplicationToCache w.key w.app w.cas

/-- The bytes that the call stores less those of `previous`, as an `i32`. -/
def change (w : CacheWrite) (previous : Option SharedValue) : Int :=
  ((w.app.serializedLen : Int) - (previous.elim 0 SharedValue.len : Nat)).bmod (2 ^ 32)

/-- What the call gives to the counter, where it has found `previous` under its key. -/
def delta (w : CacheWrite) (previous : Option SharedValue) : Int32 :=
  Int32.ofNat w.key.len + Int32.ofNat w.app.serializedLen -
    Int32.ofNat (w.key.len + previous.elim 0 SharedValue.len)

theorem toInt_delta (w : CacheWrite) (previous : Option SharedValue) :
    (w.delta previous).toInt = w.change previous := by
  rw [delta, memoryDelta_eq, Int32.toInt_ofInt]
  rfl

end CacheWrite

variable {ι : Type} [DecidableEq ι]

abbrev WriteConfig (ι : Type) := Config ι HostCall HostCall.Reply Host (Except SetFailure Unit)

/-- Beside these calls anything but the counter may be written. -/
def cacheWriters (ι : Type) : Parties ι HostCall HostCall.Reply Host (Except SetFailure Unit) where
  exec := fun _ => Host.exec
  env := fun h h' => Host.Env h h' ∨ ∃ key value, key ≠ sharedMemoryCounterKey ∧
    h' = { h with shared := h.shared.put key value }
  resume := fun _ _ _ _ => False

def writesStart (writer : ι → CacheWrite) (h : Host) : WriteConfig ι where
  shared := h
  procs := fun i => (writer i).program
  trace := []

/-- `size'` is what the call makes of the counter `size`: it is changed by what the
call stores less what it found under its key when it began. -/
def CountedBy (writer : ι → CacheWrite) (t : List (ι × HostEvent)) (i : ι) (size size' : UInt64) : Prop :=
  ∃ previous version, (i, ⟨.getSharedData (writer i).key, .ok (previous, version)⟩) ∈ t ∧
    (size'.toNat : Int) = countedSize size.toNat ((writer i).change previous)

/-- The counter is what the updates that were accepted have made of it, one after
the other, at most one for each application stored. An update is only given up
if three others were accepted meanwhile. -/
structure CounterLinearized (writer : ι → CacheWrite) (initial : UInt64) (s : WriteConfig ι) : Prop where
  history : ∃ counted last cas,
    storedAt sharedMemoryCounterKey s.trace =
      counted.map (fun update => (update.1, some (.memoryCounter update.2))) ∧
    Applied (CountedBy writer s.trace) initial counted last ∧
    s.shared.shared.entry sharedMemoryCounterKey = some (some (.memoryCounter last), cas)
  once : ∀ i, storesOf sharedMemoryCounterKey s.trace i ≤ storesOf (writer i).key s.trace i ∧
    storesOf (writer i).key s.trace i ≤ 1
  failed : ∀ i e, s.procs i = .done (.error e) → storesOf (writer i).key s.trace i = 0
  finished : ∀ i, s.procs i = .done (.ok ()) → storesOf (writer i).key s.trace i = 1 ∧
    (storesOf sharedMemoryCounterKey s.trace i = 1 ∨
      3 ≤ (otherWriters sharedMemoryCounterKey i s.trace).card)

/-! The protocol of one call -/

/-- What a call knows: what it has found under its key, whether it has stored the
application and has counted it, and what it has read of the counter. -/
structure Counting where
  previous : Option (Option SharedValue) := none
  stored : Bool := false
  counted : Bool := false
  reads : List (UInt64 × Nat) := []
  attempts : Attempts (Option Nat) := {}

/-- The counter is always there, and a write is accepted, or refused because of
its CAS. -/
def Counting.next (ℓ : Counting) : (c : HostCall) → c.Reply → Option Counting
  | .getSharedData key, reply =>
    if key = sharedMemoryCounterKey then
      match reply with
      | .ok (some (.memoryCounter size), some cas) =>
        some { ℓ with reads := (size, cas) :: ℓ.reads, attempts := ℓ.attempts.after (.read (some cas)) }
      | _ => none
    else
      match reply with
      | .ok (value, _) => some { ℓ with previous := some value }
      | .error _ => none
  | .setSharedData key _ cas, reply =>
    match reply, cas with
    | .ok (), _ =>
      if key = sharedMemoryCounterKey then
        some { ℓ with counted := true, attempts := ℓ.attempts.after .wrote }
      else some { ℓ with stored := true }
    | .error .casMismatch, some cas =>
      if key = sharedMemoryCounterKey then
        some { ℓ with attempts := ℓ.attempts.after (.refused (some cas)) }
      else some ℓ
    | _, _ => none
  | _, _ => some ℓ

inductive CountCall (w : CacheWrite) (ℓ : Counting) : HostCall → Prop
  | ask : CountCall w ℓ (.getSharedData w.key)
  | read : CountCall w ℓ (.getSharedData sharedMemoryCounterKey)
  | store (unstored : ℓ.stored = false) :
      CountCall w ℓ (.setSharedData w.key (some (.application w.app)) (some w.cas))
  | count (size size' : UInt64) (cas : Nat) (previous : Option SharedValue) (read : (size, cas) ∈ ℓ.reads)
      (seen : some cas ∈ ℓ.attempts.seen) (asked : ℓ.previous = some previous)
      (sum : finalSharedMemorySize size (w.delta previous) = some size') (stored : ℓ.stored = true)
      (uncounted : ℓ.counted = false) :
      CountCall w ℓ (.setSharedData sharedMemoryCounterKey (some (.memoryCounter size')) (some cas))

def counting (w : CacheWrite) : HostProtocol Counting where
  may := CountCall w
  next := Counting.next

/-- How a call has ended. -/
def Counting.Ended (ℓ : Counting) : Except SetFailure Unit → Prop
  | .ok () => ℓ.stored = true ∧ (ℓ.counted = true ∨ 3 ≤ ℓ.attempts.lost)
  | .error _ => ℓ.stored = false

variable {w : CacheWrite} {ℓ : Counting}

/-- One attempt to count what was stored. -/
theorem counting_updateSharedMemorySize {previous : Option SharedValue} (asked : ℓ.previous = some previous)
    (stored : ℓ.stored = true) (uncounted : ℓ.counted = false) :
    Follows (counting w) (fun ℓ' r => ℓ'.previous = ℓ.previous ∧ ℓ'.stored = ℓ.stored ∧ match r with
        | .ok () => ℓ'.counted = true
        | .error _ => ℓ'.counted = false ∧ ℓ'.attempts.lost = ℓ.attempts.lost + 1)
      (updateSharedMemorySize (w.delta previous)) ℓ := by
  refine ⟨.read, fun r ℓ₁ known => ?_⟩
  simp only [counting, Counting.next, if_true] at known
  split at known
  · rename_i size cas
    cases Option.some.inj known
    show Follows _ _ (writeSharedMemorySize (w.delta previous) size cas) _
    unfold writeSharedMemorySize
    cases sum : finalSharedMemorySize size (w.delta previous) with
    | none => trivial
    | some size' =>
      refine ⟨.count size size' cas previous List.mem_cons_self List.mem_cons_self asked sum stored uncounted, ?_⟩
      intro r ℓ₂ known
      match r with
      | .ok () =>
        simp only [counting, Counting.next, if_true] at known
        cases Option.some.inj known
        exact ⟨rfl, rfl, rfl⟩
      | .error .casMismatch =>
        simp only [counting, Counting.next, if_true] at known
        cases Option.some.inj known
        exact ⟨rfl, rfl, uncounted, rfl⟩
      | .error .notFound | .error .badArgument | .error .empty | .error .internalFailure => cases known
  · cases known

theorem counting_retry {previous : Option SharedValue} {tries : Nat} (asked : ℓ.previous = some previous)
    (stored : ℓ.stored = true) (uncounted : ℓ.counted = false) (enough : 3 ≤ tries + ℓ.attempts.lost) :
    Follows (counting w) (fun ℓ' _ => ℓ'.Ended (.ok ()))
      (retryUpdateSharedMemorySize (w.delta previous) tries) ℓ := by
  induction tries generalizing ℓ with
  | zero => exact ⟨stored, Or.inr (by omega)⟩
  | succ tries ih =>
    refine follows_bind.mpr ((counting_updateSharedMemorySize asked stored uncounted).mono fun ℓ₁ r fact => ?_)
    obtain ⟨asked₁, stored₁, outcome⟩ := fact
    cases r with
    | ok => exact ⟨stored₁.trans stored, Or.inl outcome⟩
    | error e =>
      obtain ⟨uncounted₁, lost⟩ := outcome
      exact ih (asked₁.trans asked) (stored₁.trans stored) uncounted₁ (by omega)

theorem CacheWrite.follows (other : w.key ≠ sharedMemoryCounterKey) :
    Follows (counting w) Counting.Ended w.program {} := by
  have write : ∀ (previous : Option SharedValue) (r : Except Status Unit) (ℓ : Counting),
      Counting.next { previous := some previous } (.setSharedData w.key (some (.application w.app)) (some w.cas)) r =
        some ℓ →
      (r = .ok () ∧ ℓ = { previous := some previous, stored := true }) ∨
        (∃ e, r = .error e) ∧ ℓ = { previous := some previous } := by
    intro previous r ℓ known
    match r with
    | .ok () =>
      simp only [Counting.next, if_neg other] at known
      exact Or.inl ⟨rfl, (Option.some.inj known).symm⟩
    | .error .casMismatch =>
      simp only [Counting.next, if_neg other] at known
      exact Or.inr ⟨⟨_, rfl⟩, (Option.some.inj known).symm⟩
    | .error .notFound | .error .badArgument | .error .empty | .error .internalFailure => cases known
  have counted : ∀ previous : Option SharedValue, Follows (counting w) Counting.Ended
      (retryUpdateSharedMemorySize (w.delta previous) 3 >>= fun _ => pure (.ok ()))
      { previous := some previous, stored := true } := by
    intro previous
    exact follows_bind.mpr ((counting_retry rfl rfl rfl (Nat.le_refl 3)).mono fun _ _ ended => ended)
  refine follows_bind.mpr ⟨.ask, fun r ℓ₁ known => ?_⟩
  simp only [counting, Counting.next, if_neg other] at known
  match r with
  | .error e => cases known
  | .ok (none, version) =>
    cases Option.some.inj known
    refine ⟨.store rfl, fun r ℓ₂ known => ?_⟩
    rcases write none r ℓ₂ known with ⟨rfl, rfl⟩ | ⟨⟨e, rfl⟩, rfl⟩
    · exact counted none
    · rfl
  | .ok (some value, version) =>
    cases Option.some.inj known
    refine ⟨.store rfl, fun r ℓ₂ known => ?_⟩
    rcases write (some value) r ℓ₂ known with ⟨rfl, rfl⟩ | ⟨⟨e, rfl⟩, rfl⟩
    · exact counted (some value)
    · rfl

/-! The invariant -/

variable {writer : ι → CacheWrite} {initial : UInt64} {t : List (ι × HostEvent)} {d d' : SharedData}
  {known : ι → Counting}

omit [DecidableEq ι] in
theorem CountedBy.mono {t' : List (ι × HostEvent)} {i : ι} {size size' : UInt64}
    (counted : CountedBy writer t i size size') : CountedBy writer (t ++ t') i size size' := by
  obtain ⟨previous, version, asked, sum⟩ := counted
  exact ⟨previous, version, List.mem_append_left t' asked, sum⟩

/-- What the updates have made of the counter. -/
def CounterHistory (writer : ι → CacheWrite) (initial : UInt64) (d : SharedData) (t : List (ι × HostEvent)) :
    Prop :=
  ∃ counted last cas,
    storedAt sharedMemoryCounterKey t = counted.map (fun update => (update.1, some (.memoryCounter update.2))) ∧
    Applied (CountedBy writer t) initial counted last ∧
    d.entry sharedMemoryCounterKey = some (some (.memoryCounter last), cas)

structure CountInv (writer : ι → CacheWrite) (initial : UInt64) (d : SharedData) (t : List (ι × HostEvent))
    (known : ι → Counting) : Prop where
  history : CounterHistory writer initial d t
  reads : ∀ i size cas, (size, cas) ∈ (known i).reads →
    d.Pins sharedMemoryCounterKey (some (.memoryCounter size)) cas
  previous : ∀ i previous, (known i).previous = some previous →
    ∃ version, (i, ⟨.getSharedData (writer i).key, .ok (previous, version)⟩) ∈ t
  stored : ∀ i, storesOf (writer i).key t i = (known i).stored.toNat
  counted : ∀ i, storesOf sharedMemoryCounterKey t i = (known i).counted.toNat
  backed : ∀ i, (known i).counted = true → (known i).stored = true

omit [DecidableEq ι] in
/-- A call that does not write the counter. -/
theorem CounterHistory.silent (history : CounterHistory writer initial d t) {i : ι} {e : HostEvent}
    (entry : d'.entry sharedMemoryCounterKey = d.entry sharedMemoryCounterKey)
    (stored : storedBy sharedMemoryCounterKey e = none) : CounterHistory writer initial d' (t ++ [(i, e)]) := by
  obtain ⟨counted, last, cas, list, applied, here⟩ := history
  refine ⟨counted, last, cas, ?_, applied.mono fun _ _ _ by_ => by_.mono, entry.trans here⟩
  rw [storedAt_append, stored, list]
  exact List.append_nil _

/-- The writes that a call knows of, after one more event. -/
theorem storesOf_moved (key : ι → Str) (noted : Counting → Bool)
    (before : ∀ j, storesOf (key j) t j = (noted (known j)).toNat) {i : ι} {e : HostEvent} {ℓ' : Counting}
    (now : (noted ℓ').toNat = (noted (known i)).toNat + if (storedBy (key i) e).isSome then 1 else 0) (j : ι) :
    storesOf (key j) (t ++ [(i, e)]) j = (noted (Function.update known i ℓ' j)).toNat := by
  rw [storesOf_append, before]
  by_cases same : j = i
  · subst same
    simp only [Function.update_self, now, true_and]
  · simp only [Function.update_of_ne same, Ne.symm same, false_and, if_false, Nat.add_zero]

/-- What has to be shown of the call that was made. -/
theorem CountInv.moved (inv : CountInv writer initial d t known) {i : ι} {e : HostEvent} {ℓ' : Counting}
    (history : CounterHistory writer initial d' (t ++ [(i, e)]))
    (pins : ∀ value cas, d.Pins sharedMemoryCounterKey value cas → d'.Pins sharedMemoryCounterKey value cas)
    (reads : ∀ size cas, (size, cas) ∈ ℓ'.reads → (size, cas) ∈ (known i).reads ∨
      d'.entry sharedMemoryCounterKey = some (some (.memoryCounter size), cas))
    (previous : ∀ value, ℓ'.previous = some value → (known i).previous = some value ∨
      ∃ version, e = ⟨.getSharedData (writer i).key, .ok (value, version)⟩)
    (stored : ℓ'.stored.toNat =
      (known i).stored.toNat + if (storedBy (writer i).key e).isSome then 1 else 0)
    (counted : ℓ'.counted.toNat =
      (known i).counted.toNat + if (storedBy sharedMemoryCounterKey e).isSome then 1 else 0)
    (backed : ℓ'.counted = true → ℓ'.stored = true) :
    CountInv writer initial d' (t ++ [(i, e)]) (Function.update known i ℓ') where
  history := history
  reads := by
    intro j size cas member
    by_cases same : j = i
    · subst same
      rw [Function.update_self] at member
      rcases reads size cas member with old | entry
      · exact pins _ _ (inv.reads j size cas old)
      · exact SharedData.pins_of_entry entry
    · rw [Function.update_of_ne same] at member
      exact pins _ _ (inv.reads j size cas member)
  previous := by
    intro j value at_
    by_cases same : j = i
    · subst same
      rw [Function.update_self] at at_
      rcases previous value at_ with old | ⟨version, rfl⟩
      · obtain ⟨version, asked⟩ := inv.previous j value old
        exact ⟨version, List.mem_append_left _ asked⟩
      · exact ⟨version, List.mem_append_right t (List.mem_singleton_self _)⟩
    · rw [Function.update_of_ne same] at at_
      obtain ⟨version, asked⟩ := inv.previous j value at_
      exact ⟨version, List.mem_append_left _ asked⟩
  stored := storesOf_moved (fun j => (writer j).key) Counting.stored inv.stored stored
  counted := storesOf_moved (fun _ => sharedMemoryCounterKey) Counting.counted inv.counted counted
  backed := by
    intro j
    by_cases same : j = i
    · subst same
      rw [Function.update_self]
      exact backed
    · rw [Function.update_of_ne same]
      exact inv.backed j

/-- A call that leaves shared data as they are. -/
theorem CountInv.unwritten (inv : CountInv writer initial d t known) {i : ι} {e : HostEvent} {ℓ' : Counting}
    (silent : ∀ key, storedBy key e = none)
    (reads : ∀ size cas, (size, cas) ∈ ℓ'.reads → (size, cas) ∈ (known i).reads ∨
      d.entry sharedMemoryCounterKey = some (some (.memoryCounter size), cas))
    (previous : ∀ value, ℓ'.previous = some value → (known i).previous = some value ∨
      ∃ version, e = ⟨.getSharedData (writer i).key, .ok (value, version)⟩)
    (stored : ℓ'.stored = (known i).stored) (counted : ℓ'.counted = (known i).counted) :
    CountInv writer initial d (t ++ [(i, e)]) (Function.update known i ℓ') := by
  refine inv.moved (inv.history.silent rfl (silent _)) (fun _ _ => id) reads previous ?_ ?_ ?_
  · rw [silent, stored]
    rfl
  · rw [silent, counted]
    rfl
  · rw [counted, stored]
    exact inv.backed i

/-- The application is stored, or its write refused. -/
theorem CountInv.store {h : Host} (inv : CountInv writer initial h.shared t known) {i : ι}
    (other : (writer i).key ≠ sharedMemoryCounterKey) (unstored : (known i).stored = false) :
    ∃ ℓ', (known i).next (.setSharedData (writer i).key (some (.application (writer i).app)) (some (writer i).cas))
        (Host.exec (.setSharedData (writer i).key (some (.application (writer i).app)) (some (writer i).cas)) h).1 =
          some ℓ' ∧
      CountInv writer initial
        (Host.exec (.setSharedData (writer i).key (some (.application (writer i).app)) (some (writer i).cas)) h).2.shared
        (t ++ [(i, ⟨.setSharedData (writer i).key (some (.application (writer i).app)) (some (writer i).cas),
          (Host.exec (.setSharedData (writer i).key (some (.application (writer i).app)) (some (writer i).cas)) h).1⟩)])
        (Function.update known i ℓ') := by
  rcases h.shared.set_cases (writer i).key (some (.application (writer i).app)) (some (writer i).cas) with put | refused
  · refine ⟨{ known i with stored := true }, by simp only [Host.exec, put, Counting.next, if_neg other], ?_⟩
    simp only [Host.exec, put]
    have elsewhere : storedBy sharedMemoryCounterKey ⟨.setSharedData (writer i).key
        (some (.application (writer i).app)) (some (writer i).cas), .ok ()⟩ = none := if_neg other
    have here : storedBy (writer i).key ⟨.setSharedData (writer i).key
        (some (.application (writer i).app)) (some (writer i).cas), .ok ()⟩ =
          some (some (.application (writer i).app)) := if_pos rfl
    refine inv.moved (inv.history.silent (h.shared.put_entry_ne _ (Ne.symm other)) elsewhere)
      (fun _ _ pins => pins.put _ _) (fun _ _ => Or.inl) (fun _ => Or.inl) ?_ ?_ fun _ => rfl
    · rw [here, unstored]
      rfl
    · rw [elsewhere]
      rfl
  · refine ⟨known i, by simp only [Host.exec, refused, Counting.next, if_neg other], ?_⟩
    simp only [Host.exec, refused]
    exact inv.unwritten (fun _ => rfl) (fun _ _ => Or.inl) (fun _ => Or.inl) rfl rfl

/-- The update replaces the counter that was read, or is refused. -/
theorem CountInv.count {h : Host} (inv : CountInv writer initial h.shared t known) {i : ι} {size size' : UInt64}
    {cas : Nat} {previous : Option SharedValue} (other : (writer i).key ≠ sharedMemoryCounterKey)
    (read : (size, cas) ∈ (known i).reads) (asked : (known i).previous = some previous)
    (sum : finalSharedMemorySize size ((writer i).delta previous) = some size')
    (stored : (known i).stored = true) (uncounted : (known i).counted = false) :
    ∃ ℓ', (known i).next (.setSharedData sharedMemoryCounterKey (some (.memoryCounter size')) (some cas))
        (Host.exec (.setSharedData sharedMemoryCounterKey (some (.memoryCounter size')) (some cas)) h).1 = some ℓ' ∧
      CountInv writer initial
        (Host.exec (.setSharedData sharedMemoryCounterKey (some (.memoryCounter size')) (some cas)) h).2.shared
        (t ++ [(i, ⟨.setSharedData sharedMemoryCounterKey (some (.memoryCounter size')) (some cas),
          (Host.exec (.setSharedData sharedMemoryCounterKey (some (.memoryCounter size')) (some cas)) h).1⟩)])
        (Function.update known i ℓ') := by
  rcases (inv.reads i size cas read).set (some (.memoryCounter size')) with ⟨entry, set⟩ | set
  · refine ⟨{ known i with counted := true, attempts := (known i).attempts.after .wrote },
      by simp only [Host.exec, set, Counting.next, if_true], ?_⟩
    simp only [Host.exec, set]
    have elsewhere : storedBy (writer i).key ⟨.setSharedData sharedMemoryCounterKey
        (some (.memoryCounter size')) (some cas), .ok ()⟩ = none := if_neg (Ne.symm other)
    have here : storedBy sharedMemoryCounterKey ⟨.setSharedData sharedMemoryCounterKey
        (some (.memoryCounter size')) (some cas), .ok ()⟩ = some (some (.memoryCounter size')) := by
      simp only [storedBy, if_true]
    refine inv.moved ?_ (fun _ _ pins => pins.put _ _) (fun _ _ => Or.inl) (fun _ => Or.inl) ?_ ?_ fun _ => stored
    · obtain ⟨counted, last, _, list, applied, entry'⟩ := inv.history
      cases Option.some.inj (entry.symm.trans entry')
      obtain ⟨version, asked⟩ := inv.previous i previous asked
      have changed : (size'.toNat : Int) = countedSize size.toNat ((writer i).change previous) := by
        rcases finalSharedMemorySize_spec size ((writer i).delta previous) with
          ⟨_, traps⟩ | ⟨_, final, moved, value⟩
        · cases traps.symm.trans sum
        · cases Option.some.inj (moved.symm.trans sum)
          rw [value, CacheWrite.toInt_delta]
      refine ⟨counted ++ [(i, size')], size', h.shared.nextCas, ?_, ?_, h.shared.put_entry_self _ _⟩
      · rw [storedAt_append, here, list, List.map_append]
        rfl
      · exact .next (applied.mono fun _ _ _ by_ => by_.mono)
          ⟨previous, version, List.mem_append_left _ asked, changed⟩
    · rw [elsewhere]
      rfl
    · rw [here, uncounted]
      rfl
  · refine ⟨{ known i with attempts := (known i).attempts.after (.refused (some cas)) },
      by simp only [Host.exec, set, Counting.next, if_true], ?_⟩
    simp only [Host.exec, set]
    exact inv.unwritten (fun _ => rfl) (fun _ _ => Or.inl) (fun _ => Or.inl) rfl rfl

theorem CountInv.call {h : Host} (inv : CountInv writer initial h.shared t known) {i : ι} {c : HostCall}
    (other : (writer i).key ≠ sharedMemoryCounterKey) (may : CountCall (writer i) (known i) c) :
    ∃ ℓ', (known i).next c (Host.exec c h).1 = some ℓ' ∧
      CountInv writer initial (Host.exec c h).2.shared (t ++ [(i, ⟨c, (Host.exec c h).1⟩)])
        (Function.update known i ℓ') := by
  cases may with
  | ask =>
    refine ⟨{ known i with previous := some (h.shared.get (writer i).key).1 }, if_neg other, ?_⟩
    refine inv.unwritten (fun _ => rfl) (fun _ _ => Or.inl) (fun value at_ => Or.inr ?_) rfl rfl
    cases Option.some.inj at_
    exact ⟨_, rfl⟩
  | read =>
    obtain ⟨_, last, cas, _, _, entry⟩ := inv.history
    have found : h.shared.get sharedMemoryCounterKey = (some (.memoryCounter last), some cas) :=
      SharedData.get_present entry
    refine ⟨{ known i with
      reads := (last, cas) :: (known i).reads
      attempts := (known i).attempts.after (.read (some cas)) }, ?_, ?_⟩
    · simp only [Host.exec, found, Counting.next, if_true]
    · refine inv.unwritten (fun _ => rfl) (fun size cas' member => ?_) (fun _ => Or.inl) rfl rfl
      rcases List.mem_cons.mp member with new | old
      · cases new
        exact Or.inr entry
      · exact Or.inl old
  | store unstored => exact inv.store other unstored
  | count size size' cas previous read _ asked sum stored uncounted =>
    exact inv.count other read asked sum stored uncounted

theorem counting_preserved (writer : ι → CacheWrite) (initial : UInt64)
    (other : ∀ i, (writer i).key ≠ sharedMemoryCounterKey) (guard) :
    Preserved (cacheWriters ι) guard (fun i => counting (writer i)) (fun _ => Counting.Ended)
      fun s => CountInv writer initial s.shared.shared s.trace where
  call := fun _ _ i _ _ inv _ may _ => inv.call (other i) may
  resume := fun _ _ _ _ _ _ _ _ resumes => False.elim resumes
  env := by
    intro s known _ inv fact
    obtain ⟨clock, dispatch, rfl⟩ | ⟨key, value, elsewhere, rfl⟩ := fact
    · exact inv
    · obtain ⟨counted, last, cas, list, applied, entry⟩ := inv.history
      refine ⟨⟨counted, last, cas, list, applied, ?_⟩, fun i size cas member => ?_, inv.previous, inv.stored,
        inv.counted, inv.backed⟩
      · exact (s.shared.shared.put_entry_ne value (Ne.symm elsewhere)).trans entry
      · exact (inv.reads i size cas member).put _ _

/-- What a reply tells about the attempts to count. -/
theorem Counting.next_attempts {c : HostCall} {r : c.Reply} {ℓ' : Counting} (known : ℓ.next c r = some ℓ') :
    ℓ'.attempts = ℓ.attempts.after (accessTo sharedMemoryCounterKey ⟨c, r⟩) := by
  cases c with
  | getSharedData key =>
    by_cases same : key = sharedMemoryCounterKey
    · simp only [Counting.next, if_pos same] at known
      split at known
      · cases Option.some.inj known
        simp only [accessTo, if_pos same]
      · cases known
    · simp only [Counting.next, if_neg same] at known
      match r with
      | .ok (_, _) =>
        cases Option.some.inj known
        simp only [accessTo, if_neg same, Attempts.after]
      | .error e => cases known
  | setSharedData key value cas =>
    match r, cas with
    | .ok (), _ | .error .casMismatch, some _ =>
      by_cases same : key = sharedMemoryCounterKey
      · simp only [Counting.next, if_pos same] at known
        cases Option.some.inj known
        simp only [accessTo, if_pos same]
      · simp only [Counting.next, if_neg same] at known
        cases Option.some.inj known
        simp only [accessTo, if_neg same, Attempts.after]
    | .error .casMismatch, none | .error .notFound, _ | .error .badArgument, _ | .error .empty, _
    | .error .internalFailure, _ => cases known
  | _ =>
    cases Option.some.inj known
    rfl

/-- An update relies on a counter that the call has read since its last try. -/
theorem CountCall.vouched {c : HostCall} {r : c.Reply} {version : Option Nat}
    (other : w.key ≠ sharedMemoryCounterKey) (may : CountCall w ℓ c)
    (refused : accessTo sharedMemoryCounterKey ⟨c, r⟩ = .refused version) : version ∈ ℓ.attempts.seen := by
  cases may with
  | ask =>
    match r with
    | .ok (_, _) =>
      simp only [accessTo, if_neg other] at refused
      cases refused
    | .error _ => cases refused
  | read =>
    match r with
    | .ok (_, _) =>
      simp only [accessTo, if_true] at refused
      cases refused
    | .error _ => cases refused
  | store =>
    match r with
    | .ok () | .error .casMismatch =>
      simp only [accessTo, if_neg other] at refused
      cases refused
    | .error .notFound | .error .badArgument | .error .empty | .error .internalFailure => cases refused
  | count size size' cas previous _ seen =>
    match r with
    | .error .casMismatch =>
      simp only [accessTo, if_true] at refused
      cases refused
      exact seen
    | .ok () =>
      simp only [accessTo, if_true] at refused
      cases refused
    | .error .notFound | .error .badArgument | .error .empty | .error .internalFailure => cases refused

/-- Two applications of one service are stored at once. -/
def twoWrites (second : Bool) : CacheWrite := ⟨if second then ['s', '_', 'b'] else ['s', '_', 'a'], cachedWith ∅, 0⟩

def counterHost : Host :=
  { quietHost with
    shared := SharedData.empty.put sharedMemoryCounterKey (some (.memoryCounter sharedMemoryInitialSize)) }

/-- Both read the counter before one of them writes it. -/
def bothCounted : WriteConfig Bool :=
  (writesStart twoWrites counterHost).play (cacheWriters Bool)
    [false, true, false, true, false, true, false, true, true, true]

example : storesOf sharedMemoryCounterKey bothCounted.trace true = 1 := by decide

end ThreescaleCache
