import ThreescaleCache.Filing
import ThreescaleCache.Ledger.Total
import ThreescaleCache.LoneRuns
import ThreescaleCache.SingletonRoot

namespace ThreescaleCache
open Interaction

/-! The shared memory counter, over runs of the calls that change the cache. -/

inductive CacheCall where
  | set (key : Str) (app : Application) (cas : Nat)
  | remove (key : Str)

namespace CacheCall

def key : CacheCall → Str
  | .set key _ _ => key
  | .remove key => key

def program : CacheCall → HostProg Unit
  | .set key app cas => setApplicationToCache key app cas >>= fun _ => pure ()
  | .remove key => removeApplicationFromCache key

/-- The host after the call. -/
def run (call : CacheCall) (h : Host) : Host := (call.program.run Host.exec h).state

/-- What is stored is no larger than a `Vec` can be. -/
def Small : CacheCall → Prop
  | .set _ app _ => app.serializedLen < 2 ^ 31
  | .remove _ => True

end CacheCall

def runCalls (calls : List CacheCall) (h : Host) : Host := calls.foldl (fun h call => call.run h) h

/-- The host once the singleton has started. -/
def startedHost (h : Host) : Host := (SingletonService.onVmStart.run Host.exec h).state

namespace SharedData

/-- The bytes of the entry under a key other than that of the counter: those of
the key and of its value, if it is not erased. -/
def footprint (d : SharedData) (key : Str) : Nat :=
  if key = sharedMemoryCounterKey then 0
  else
    match d.entry key with
    | none => 0
    | some (value, _) => key.len + value.elim 0 SharedValue.len

noncomputable def memoryUsed (d : SharedData) : Nat := finsum d.footprint

/-- The counter says how much memory is used. -/
def Accounted (d : SharedData) : Prop :=
  ∃ size cas, d.entry sharedMemoryCounterKey = some (some (.memoryCounter size), cas) ∧
    size.toNat = sharedMemoryInitialSize.toNat + d.memoryUsed

/-- A write with this CAS is refused. -/
def Refuses (d : SharedData) (key : Str) (cas : Nat) : Prop :=
  ∃ value stored, d.entry key = some (value, stored) ∧ cas ≠ 0 ∧ cas ≠ stored

/-- The key is there already, or of no account. -/
def KeyCounted (d : SharedData) (key : Str) : Prop := (d.entry key).isSome ∨ key.len = 0

/-- The condition on a call: it is refused, or its key is counted already, and
only a key without a value is erased. -/
def KeepsAccount (d : SharedData) : CacheCall → Prop
  | .set key app cas => d.Refuses key cas ∨
      (key ≠ sharedMemoryCounterKey ∧ d.KeyCounted key ∧
        sharedMemoryInitialSize.toNat + (d.put key (some (.application app))).memoryUsed < 2 ^ 64)
  | .remove key => key ≠ sharedMemoryCounterKey ∧ d.KeyCounted key ∧ d.value key = none

/-! The memory that is used, and a write -/

theorem footprint_put {key : Str} (other : key ≠ sharedMemoryCounterKey) (d : SharedData)
    (value : Option SharedValue) :
    (d.put key value).footprint = Function.update d.footprint key (key.len + value.elim 0 SharedValue.len) := by
  funext k
  by_cases same : k = key
  · subst same
    rw [Function.update_self, footprint, if_neg other, d.put_entry_self]
  · rw [Function.update_of_ne same, footprint, footprint, d.put_entry_ne value same]

theorem footprint_put_counter (d : SharedData) (value : Option SharedValue) :
    (d.put sharedMemoryCounterKey value).footprint = d.footprint := by
  funext k
  by_cases same : k = sharedMemoryCounterKey
  · rw [footprint, footprint, if_pos same, if_pos same]
  · rw [footprint, footprint, d.put_entry_ne value same]

theorem memoryUsed_put {key : Str} (other : key ≠ sharedMemoryCounterKey) {d : SharedData}
    (finite : (Function.support d.footprint).Finite) (value : Option SharedValue) :
    (d.put key value).memoryUsed + d.footprint key =
      d.memoryUsed + (key.len + value.elim 0 SharedValue.len) := by
  rw [memoryUsed, footprint_put other]
  exact Ledger.total_update finite key _

theorem footprint_le_memoryUsed {d : SharedData} (finite : (Function.support d.footprint).Finite) (key : Str) :
    d.footprint key ≤ d.memoryUsed := by
  have without := Ledger.total_update finite key 0
  rw [memoryUsed]
  omega

theorem footprint_counted {d : SharedData} {key : Str} (other : key ≠ sharedMemoryCounterKey)
    (counted : d.KeyCounted key) : d.footprint key = key.len + (d.value key).elim 0 SharedValue.len := by
  unfold footprint
  rw [if_neg other]
  cases here : d.entry key with
  | none =>
    rw [value, get_absent here]
    rcases counted with some_ | nothing
    · rw [here] at some_
      cases some_
    · rw [nothing]
      rfl
  | some pair =>
    rw [value, get_present here]

theorem footprint_new {d : SharedData} {key : Str} (new : ¬d.KeyCounted key) :
    d.footprint key = 0 ∧ d.value key = none ∧ key.len ≠ 0 := by
  obtain ⟨absent, long⟩ := not_or.mp new
  have here : d.entry key = none := Option.not_isSome_iff_eq_none.mp absent
  refine ⟨?_, ?_, long⟩
  · rw [footprint, here]
    split <;> rfl
  · rw [value, get_absent here]

theorem set_refused {d : SharedData} {key : Str} {cas : Nat} (refuses : d.Refuses key cas)
    (value : Option SharedValue) : d.set key value (some cas) = (.error .casMismatch, d) := by
  obtain ⟨old, stored, here, positive, different⟩ := refuses
  exact set_mismatch value here positive different

theorem set_accepted {d : SharedData} {key : Str} {cas : Nat} (accepts : ¬d.Refuses key cas)
    (value : Option SharedValue) : d.set key value (some cas) = (.ok (), d.put key value) := by
  cases here : d.entry key with
  | none => exact set_absent value (some cas) here
  | some pair =>
    obtain ⟨old, stored⟩ := pair
    by_cases zero : cas = 0
    · exact d.set_overwrite key value zero
    · by_cases same : cas = stored
      · subst same
        exact set_match value here
      · exact absurd ⟨old, stored, here, zero, same⟩ accepts

end SharedData

theorem Application.serializedLen_pos (app : Application) : 0 < app.serializedLen := by
  unfold Application.serializedLen Str.serializedLen
  omega

/-! One call -/

/-- As long as the counter has more than is given up, it moves by the
difference of the two sizes, up to what a `u64` holds. -/
theorem finalSharedMemorySize_eq {used : UInt64} {size previous : Nat} (small : size < 2 ^ 31)
    (held : previous < 2 ^ 31) (room : previous < used.toNat) :
    ∃ final, finalSharedMemorySize used (Int32.ofInt (size - previous)) = some final ∧
      final.toNat = min (used.toNat + size - previous) (2 ^ 64 - 1) := by
  have delta : (Int32.ofInt (size - previous)).toInt = size - previous :=
    Int32.toInt_ofInt_of_le (by omega) (by omega)
  rcases finalSharedMemorySize_spec used (Int32.ofInt (size - previous)) with
    ⟨least, _⟩ | ⟨_, final, moved, value⟩
  · omega
  · refine ⟨final, moved, ?_⟩
    rw [delta, countedSize, if_neg fun all => absurd all.2 (by omega)] at value
    omega

section
variable {h : Host} {delta : Int32} {used final : UInt64} {counterCas : Nat}

/-- The first try for the counter is the last one. -/
theorem alone_retryCounter
    (here : h.shared.entry sharedMemoryCounterKey = some (some (.memoryCounter used), counterCas))
    (moved : finalSharedMemorySize used delta = some final) (tries : Nat) :
    Alone Host.exec (fun h' r =>
        h'.shared = h.shared.put sharedMemoryCounterKey (some (.memoryCounter final)) ∧ r = some ())
      (retryUpdateSharedMemorySize delta (tries + 1)) h := by
  have update : Alone Host.exec (fun h' r =>
        h'.shared = h.shared.put sharedMemoryCounterKey (some (.memoryCounter final)) ∧ r = some (.ok ()))
      (updateSharedMemorySize delta) h := by
    refine alone_bind.mpr (alone_call.mpr ?_)
    simp only [Host.exec, SharedData.get_present here]
    show Alone Host.exec _ (writeSharedMemorySize delta used counterCas) h
    unfold writeSharedMemorySize
    rw [moved]
    refine alone_bind.mpr (alone_call.mpr ?_)
    simp only [Host.exec, SharedData.set_match _ here]
    exact ⟨rfl, rfl⟩
  refine alone_bind.mpr (update.mono fun h' r done => ?_)
  obtain ⟨same, rfl⟩ := done
  exact ⟨same, rfl⟩

/-- An application over the counter is no counter. -/
theorem alone_updateOverwritten {app : Application}
    (here : h.shared.entry sharedMemoryCounterKey = some (some (.application app), counterCas)) :
    Alone Host.exec (fun h' r => h'.shared = h.shared ∧ r = some (.error .notACounter))
      (updateSharedMemorySize delta) h := by
  refine alone_bind.mpr (alone_call.mpr ?_)
  simp only [Host.exec, SharedData.get_present here]
  refine after_some.mpr ?_
  dsimp only
  rw [SharedValue.counter_application]
  exact ⟨rfl, rfl⟩

/-- It is left alone. -/
theorem alone_retryOverwritten {app : Application}
    (here : h.shared.entry sharedMemoryCounterKey = some (some (.application app), counterCas)) (tries : Nat) :
    Alone Host.exec (fun h' _ => h'.shared = h.shared) (retryUpdateSharedMemorySize delta tries) h := by
  induction tries generalizing h with
  | zero => rfl
  | succ tries ih =>
    refine alone_bind.mpr ((alone_updateOverwritten here).mono fun h' r same => ?_)
    obtain ⟨same, rfl⟩ := same
    exact (ih (same ▸ here)).mono fun h₂ _ again => again.trans same

end

section
variable {h : Host} {key : Str} {app : Application} {cas : Nat}

/-- An application is set as its write and the counting come out. -/
theorem alone_setApplication {Q : SharedData → Prop}
    (refused : h.shared.Refuses key cas → Q h.shared)
    (counted : ¬h.shared.Refuses key cas →
      Alone Host.exec (fun h' _ => Q h'.shared)
        (retryUpdateSharedMemorySize
          (Int32.ofInt (app.serializedLen - ((h.shared.value key).elim 0 SharedValue.len : Nat))) 3)
        { h with shared := h.shared.put key (some (.application app)) }) :
    Q ((CacheCall.set key app cas).run h).shared := by
  have alone : Alone Host.exec (fun h' _ => Q h'.shared) (CacheCall.set key app cas).program h := by
    refine alone_bind.mpr (alone_bind.mpr ((alone_getCachePairSize key h).mono fun h' r read => ?_))
    obtain ⟨rfl, rfl⟩ := read
    refine after_some.mpr ?_
    dsimp only
    rw [memoryDelta_eq]
    refine alone_bind.mpr (alone_call.mpr ?_)
    by_cases refuses : h'.shared.Refuses key cas
    · simp only [Host.exec, SharedData.set_refused refuses]
      exact refused refuses
    · simp only [Host.exec, SharedData.set_accepted refuses]
      refine alone_bind.mpr ((counted refuses).mono fun h₂ r last => ?_)
      cases r with
      | none => exact last
      | some => exact last
  exact alone_iff_run.mp alone

theorem run_remove : ((CacheCall.remove key).run h).shared = h.shared.put key none := by
  have overwrites := h.shared.set_overwrite key none SharedData.no_cas
  have alone : Alone Host.exec (fun h' _ => h'.shared = h.shared.put key none)
      (CacheCall.remove key).program h := by
    refine alone_bind.mpr (alone_call.mpr ?_)
    simp only [Host.exec, overwrites]
    rfl
  exact alone_iff_run.mp alone

end

/-! Runs -/

/-- What is stored beside the counter is applications of the sizes that a `Vec`
can have, and the counter says how much they use. -/
structure CacheInv (d : SharedData) : Prop where
  applications : ∀ key v, key ≠ sharedMemoryCounterKey → d.value key = some v →
    (∃ app, v = .application app) ∧ v.len < 2 ^ 31
  finite : (Function.support d.footprint).Finite
  accounted : d.Accounted

namespace CacheInv
variable {d : SharedData} {key : Str}

theorem len_lt (inv : CacheInv d) (other : key ≠ sharedMemoryCounterKey) :
    (d.value key).elim 0 SharedValue.len < 2 ^ 31 := by
  cases here : d.value key with
  | none => exact Nat.two_pow_pos 31
  | some v => exact (inv.applications key v other here).2

/-- A write keeps what does not concern the counter. -/
theorem put (inv : CacheInv d) (other : key ≠ sharedMemoryCounterKey) {value : Option SharedValue}
    (fits : ∀ v, value = some v → (∃ app, v = .application app) ∧ v.len < 2 ^ 31) {d' : SharedData}
    (entries : ∀ k, k ≠ sharedMemoryCounterKey → d'.entry k = (d.put key value).entry k)
    (accounted : d'.Accounted) : CacheInv d' where
  applications := by
    intro k v notCounter here
    have same : d'.value k = (d.put key value).value k := by
      simp only [SharedData.value, SharedData.get, entries k notCounter]
    rw [same, d.value_put] at here
    split at here
    · exact fits v here
    · exact inv.applications k v notCounter here
  finite := by
    have same : d'.footprint = (d.put key value).footprint := by
      funext k
      unfold SharedData.footprint
      by_cases notCounter : k = sharedMemoryCounterKey
      · rw [if_pos notCounter, if_pos notCounter]
      · rw [entries k notCounter]
    rw [same, SharedData.footprint_put other]
    exact (inv.finite.insert key).subset (Ledger.support_update_subset _ _ _)
  accounted := accounted

end CacheInv

theorem accounted_put_counter_iff {d : SharedData} {final : UInt64} :
    (d.put sharedMemoryCounterKey (some (.memoryCounter final))).Accounted ↔
      final.toNat = sharedMemoryInitialSize.toNat + d.memoryUsed := by
  have used : (d.put sharedMemoryCounterKey (some (.memoryCounter final))).memoryUsed = d.memoryUsed := by
    rw [SharedData.memoryUsed, SharedData.footprint_put_counter, SharedData.memoryUsed]
  unfold SharedData.Accounted
  rw [used, d.put_entry_self]
  constructor
  · rintro ⟨size, cas, same, counted⟩
    cases same
    exact counted
  · exact fun counted => ⟨final, _, rfl, counted⟩

section
variable {h : Host} {key : Str} {app : Application} {cas : Nat}

/-- The counter after an application is set: it misses the key of a new entry. -/
theorem set_accounted_iff (inv : CacheInv h.shared) (small : app.serializedLen < 2 ^ 31)
    (accepts : ¬h.shared.Refuses key cas) (other : key ≠ sharedMemoryCounterKey) :
    ∃ final, ((CacheCall.set key app cas).run h).shared =
        (h.shared.put key (some (.application app))).put sharedMemoryCounterKey (some (.memoryCounter final)) ∧
      (final.toNat = sharedMemoryInitialSize.toNat + (h.shared.put key (some (.application app))).memoryUsed ↔
        h.shared.KeyCounted key ∧
          sharedMemoryInitialSize.toNat + (h.shared.put key (some (.application app))).memoryUsed < 2 ^ 64) := by
  obtain ⟨used, counterCas, counter, counted⟩ := inv.accounted
  have held := inv.len_lt other
  have part := SharedData.footprint_le_memoryUsed inv.finite key
  have moved := SharedData.memoryUsed_put other inv.finite (some (.application app))
  have initial : sharedMemoryInitialSize.toNat = 1000 := rfl
  have size : (some (SharedValue.application app)).elim 0 SharedValue.len = app.serializedLen := rfl
  rw [size] at moved
  have room : (h.shared.value key).elim 0 SharedValue.len < used.toNat := by
    by_cases known : h.shared.KeyCounted key
    · rw [SharedData.footprint_counted other known] at part
      omega
    · rw [(SharedData.footprint_new known).2.1]
      show 0 < used.toNat
      omega
  obtain ⟨final, final_eq, value⟩ := finalSharedMemorySize_eq small held room
  refine ⟨final, ?_, ?_⟩
  · refine alone_setApplication (Q := fun d => d = (h.shared.put key (some (.application app))).put
      sharedMemoryCounterKey (some (.memoryCounter final))) (fun refuses => absurd refuses accepts) fun _ => ?_
    have here : (h.shared.put key (some (.application app))).entry sharedMemoryCounterKey =
        some (some (.memoryCounter used), counterCas) := by
      rw [h.shared.put_entry_ne _ (Ne.symm other), counter]
    exact (alone_retryCounter (h := { h with shared := h.shared.put key (some (.application app)) })
      here final_eq 2).mono fun h' r done => done.1
  · rw [value]
    by_cases known : h.shared.KeyCounted key
    · rw [SharedData.footprint_counted other known] at part moved
      rw [and_iff_right known]
      omega
    · obtain ⟨absent, gone, long⟩ := SharedData.footprint_new known
      have nothing : (h.shared.value key).elim 0 SharedValue.len = 0 := by
        rw [gone]
        rfl
      refine iff_of_false ?_ fun both => known both.1
      omega

/-- One call keeps the account exactly if it meets the condition. -/
theorem CacheInv.step (inv : CacheInv h.shared) {call : CacheCall} (small : call.Small) :
    ((call.run h).shared.Accounted ↔ h.shared.KeepsAccount call) ∧
      (h.shared.KeepsAccount call → CacheInv (call.run h).shared) := by
  suffices step : ((call.run h).shared.Accounted ↔ h.shared.KeepsAccount call) ∧
      ((call.run h).shared.Accounted → CacheInv (call.run h).shared) from
    ⟨step.1, fun keeps => step.2 (step.1.mpr keeps)⟩
  cases call with
  | set key app cas =>
    by_cases refuses : h.shared.Refuses key cas
    · have same : ((CacheCall.set key app cas).run h).shared = h.shared :=
        alone_setApplication (Q := fun d => d = h.shared) (fun _ => rfl) fun accepts => absurd refuses accepts
      rw [same]
      exact ⟨iff_of_true inv.accounted (Or.inl refuses), fun _ => inv⟩
    · by_cases other : key = sharedMemoryCounterKey
      · subst other
        have overwritten : ((CacheCall.set sharedMemoryCounterKey app cas).run h).shared =
            h.shared.put sharedMemoryCounterKey (some (.application app)) :=
          alone_setApplication (Q := fun d => d = h.shared.put sharedMemoryCounterKey (some (.application app)))
            (fun refused => absurd refused refuses)
            fun _ => alone_retryOverwritten (h := { h with shared := h.shared.put _ _ }) (h.shared.put_entry_self _ _) 3
        have lost : ¬(h.shared.put sharedMemoryCounterKey (some (.application app))).Accounted := by
          rintro ⟨size, cas, same, _⟩
          rw [h.shared.put_entry_self] at same
          cases same
        rw [overwritten]
        refine ⟨iff_of_false lost ?_, fun accounted => absurd accounted lost⟩
        rintro (refused | ⟨other, _⟩)
        · exact refuses refused
        · exact other rfl
      · obtain ⟨final, state, exactly⟩ := set_accounted_iff inv small refuses other
        rw [state, accounted_put_counter_iff]
        refine ⟨exactly.trans ?_, fun counted => ?_⟩
        · constructor
          · exact fun both => Or.inr ⟨other, both⟩
          · rintro (refused | ⟨_, both⟩)
            · exact absurd refused refuses
            · exact both
        · have fits : ∀ v : SharedValue, some (.application app) = some v →
              (∃ app, v = .application app) ∧ v.len < 2 ^ 31 := by
            rintro v ⟨⟩
            exact ⟨⟨app, rfl⟩, small⟩
          exact inv.put other fits (fun k notCounter => SharedData.put_entry_ne _ _ notCounter)
            (accounted_put_counter_iff.mpr counted)
  | remove key =>
    rw [run_remove]
    by_cases other : key = sharedMemoryCounterKey
    · subst other
      have lost : ¬(h.shared.put sharedMemoryCounterKey none).Accounted := by
        rintro ⟨size, cas, same, _⟩
        rw [h.shared.put_entry_self] at same
        cases same
      exact ⟨iff_of_false lost fun keeps => keeps.1 rfl, fun accounted => absurd accounted lost⟩
    · obtain ⟨used, counterCas, counter, counted⟩ := inv.accounted
      have entry : (h.shared.put key none).entry sharedMemoryCounterKey =
          some (some (.memoryCounter used), counterCas) := by
        rw [h.shared.put_entry_ne none (Ne.symm other), counter]
      have moved := SharedData.memoryUsed_put other inv.finite none
      have nothing : (none : Option SharedValue).elim 0 SharedValue.len = 0 := rfl
      have accounted_iff : (h.shared.put key none).Accounted ↔ h.shared.footprint key = key.len := by
        constructor
        · rintro ⟨size, cas, same, total⟩
          rw [entry] at same
          cases same
          omega
        · intro same
          exact ⟨used, counterCas, entry, by omega⟩
      have fits : ∀ v : SharedValue, none = some v → (∃ app, v = .application app) ∧ v.len < 2 ^ 31 := by
        rintro v ⟨⟩
      refine ⟨accounted_iff.trans ?_, fun accounted => inv.put other fits (fun _ _ => rfl) accounted⟩
      by_cases known : h.shared.KeyCounted key
      · rw [SharedData.footprint_counted other known]
        cases here : h.shared.value key with
        | none => exact iff_of_true rfl ⟨other, known, here⟩
        | some v =>
          refine iff_of_false ?_ fun keeps => ?_
          · obtain ⟨⟨app, rfl⟩, _⟩ := inv.applications key v other here
            have positive := app.serializedLen_pos
            show ¬key.len + app.serializedLen = key.len
            omega
          · obtain ⟨_, _, gone⟩ := keeps
            rw [here] at gone
            cases gone
      · obtain ⟨absent, _, long⟩ := SharedData.footprint_new known
        rw [absent]
        exact iff_of_false (Ne.symm long) fun keeps => known keeps.2.1

theorem CacheInv.runs (inv : CacheInv h.shared) {calls : List CacheCall} (small : ∀ call ∈ calls, call.Small) :
    (∀ before, before <+: calls → (runCalls before h).shared.Accounted) ↔
      ∀ before call, before ++ [call] <+: calls → (runCalls before h).shared.KeepsAccount call := by
  induction calls generalizing h with
  | nil =>
    refine iff_of_true (fun before prefix_ => ?_) fun before call prefix_ => ?_
    · rw [List.prefix_nil.mp prefix_]
      exact inv.accounted
    · exact absurd (List.prefix_nil.mp prefix_) (List.append_ne_nil_of_right_ne_nil before (List.cons_ne_nil call []))
  | cons first rest ih =>
    obtain ⟨exactly, kept⟩ := inv.step (small first List.mem_cons_self)
    have later := fun keeps => ih (kept keeps) fun call member => small call (List.mem_cons_of_mem first member)
    constructor
    · intro accounted
      have keeps : h.shared.KeepsAccount first :=
        exactly.mp (accounted [first] (List.cons_prefix_cons.mpr ⟨rfl, List.nil_prefix⟩))
      intro before call prefix_
      cases before with
      | nil =>
        obtain ⟨rfl, _⟩ := List.cons_prefix_cons.mp prefix_
        exact keeps
      | cons b before =>
        obtain ⟨rfl, within⟩ := List.cons_prefix_cons.mp prefix_
        refine (later keeps).mp (fun before prefix_ => ?_) before call within
        exact accounted (b :: before) (List.cons_prefix_cons.mpr ⟨rfl, prefix_⟩)
    · intro meets before prefix_
      have keeps : h.shared.KeepsAccount first := meets [] first (List.cons_prefix_cons.mpr ⟨rfl, List.nil_prefix⟩)
      cases before with
      | nil => exact inv.accounted
      | cons b before =>
        obtain ⟨rfl, within⟩ := List.cons_prefix_cons.mp prefix_
        refine (later keeps).mpr (fun before call prefix_ => ?_) before within
        exact meets (b :: before) call (List.cons_prefix_cons.mpr ⟨rfl, prefix_⟩)

theorem startedHost_shared (h : Host) : (startedHost h).shared =
    h.shared.put sharedMemoryCounterKey (some (.memoryCounter sharedMemoryInitialSize)) := by
  have alone : Alone Host.exec (fun h' _ => h'.shared =
      h.shared.put sharedMemoryCounterKey (some (.memoryCounter sharedMemoryInitialSize)))
      SingletonService.onVmStart h := by
    refine alone_bind.mpr (alone_call.mpr ?_)
    simp only [Host.exec, h.shared.set_overwrite _ _ SharedData.no_cas]
    rfl
  exact alone_iff_run.mp alone

theorem footprint_empty : SharedData.empty.footprint = fun _ => 0 := by
  funext key
  unfold SharedData.footprint SharedData.empty
  split <;> rfl

theorem memoryUsed_empty : SharedData.empty.memoryUsed = 0 := by
  rw [SharedData.memoryUsed, footprint_empty, finsum_zero]

theorem footprint_started (empty : h.shared = .empty) : (startedHost h).shared.footprint = fun _ => 0 := by
  rw [startedHost_shared, SharedData.footprint_put_counter, empty, footprint_empty]

/-- With nothing but the counter in shared data, it is right. -/
theorem cacheInv_started (empty : h.shared = .empty) : CacheInv (startedHost h).shared := by
  have unused := footprint_started empty
  rw [startedHost_shared] at unused ⊢
  rw [SharedData.footprint_put_counter] at unused
  refine ⟨?_, ?_, accounted_put_counter_iff.mpr ?_⟩
  · intro key v other here
    rw [SharedData.value_put_ne _ _ other, empty] at here
    cases here
  · rw [SharedData.footprint_put_counter, unused, Function.support_fun_zero]
    exact Set.finite_empty
  · rw [SharedData.memoryUsed, unused, finsum_zero, Nat.add_zero]

/-- A run begins once the singleton has started on nothing, or anywhere where the
counter is right. -/
inductive Begins : Host → Prop
  | started {h : Host} (empty : h.shared = .empty) : Begins (startedHost h)
  | accounted {h : Host} (inv : CacheInv h.shared) : Begins h

/-- After each call of a run the counter says how much memory is used, exactly
if each of its calls meets the condition: the first insertion of a key does not
count the key, and an erased value is never taken off. -/
theorem memoryCounter_accounted_iff (begins : Begins h) {calls : List CacheCall}
    (small : ∀ call ∈ calls, call.Small) :
    (∀ before, before <+: calls → (runCalls before h).shared.Accounted) ↔
      ∀ before call, before ++ [call] <+: calls → (runCalls before h).shared.KeepsAccount call := by
  cases begins with
  | started empty => exact (cacheInv_started empty).runs small
  | accounted inv => exact inv.runs small

/-- On nothing, no call that takes effect meets the condition, unless its key
has no bytes. -/
theorem not_keepsAccount_started (empty : h.shared = .empty) {call : CacheCall} (named : call.key.len ≠ 0)
    (other : call.key ≠ sharedMemoryCounterKey) : ¬(startedHost h).shared.KeepsAccount call := by
  have absent : (startedHost h).shared.entry call.key = none := by
    rw [startedHost_shared, SharedData.put_entry_ne _ _ other, empty]
    rfl
  have new : ¬(startedHost h).shared.KeyCounted call.key := by
    rintro (present | short)
    · rw [absent] at present
      cases present
    · exact named short
  cases call with
  | set key app cas =>
    rintro (⟨_, _, here, _⟩ | ⟨_, known, _⟩)
    · cases absent.symm.trans here
    · exact new known
  | remove key => exact fun keeps => new keeps.2.1

/-- To overwrite what is there meets the condition, as long as the counter has room. -/
theorem CacheInv.keeps_set {d : SharedData} {size : UInt64} {counterCas : Nat} (inv : CacheInv d)
    (counter : d.entry sharedMemoryCounterKey = some (some (.memoryCounter size), counterCas))
    (other : key ≠ sharedMemoryCounterKey) (present : (d.entry key).isSome)
    (room : size.toNat + app.serializedLen < 2 ^ 64) : d.KeepsAccount (.set key app cas) := by
  obtain ⟨_, _, same, counted⟩ := inv.accounted
  cases counter.symm.trans same
  have moved := SharedData.memoryUsed_put other inv.finite (some (.application app))
  rw [SharedData.footprint_counted other (Or.inl present)] at moved
  have long : (some (SharedValue.application app)).elim 0 SharedValue.len = app.serializedLen := rfl
  exact Or.inr ⟨other, Or.inl present, by omega⟩

end

/-- One application is stored, and counted with its key. -/
def countedHost : Host :=
  { quietHost with
    shared := (SharedData.empty.put hitKey (some (.application (cachedWith ∅)))).put sharedMemoryCounterKey
      (some (.memoryCounter 1051)) }

theorem cacheInv_counted : CacheInv countedHost.shared := by
  have other : hitKey ≠ sharedMemoryCounterKey := by decide
  have finite : (Function.support SharedData.empty.footprint).Finite := by
    rw [footprint_empty, Function.support_fun_zero]
    exact Set.finite_empty
  refine ⟨?_, ?_, accounted_put_counter_iff.mpr ?_⟩
  · intro key v notCounter here
    rw [countedHost, SharedData.value_put_ne _ _ notCounter, SharedData.value_put] at here
    split at here
    · cases here
      exact ⟨⟨_, rfl⟩, by decide⟩
    · cases here
  · rw [countedHost, SharedData.footprint_put_counter, SharedData.footprint_put other]
    exact (finite.insert hitKey).subset (Ledger.support_update_subset _ _ _)
  · have used := SharedData.memoryUsed_put other finite (some (.application (cachedWith ∅)))
    rw [memoryUsed_empty, footprint_empty] at used
    exact (congrArg (1000 + ·) used).symm

def longerApp : Application := { cachedWith ∅ with appKeys := some [['k']] }

/-- The application is overwritten with a longer one, and with a shorter one again. -/
def overwrites : List CacheCall := [.set hitKey longerApp 0, .set hitKey (cachedWith ∅) 0]

theorem memoryCounter_accounted_overwritten : (runCalls overwrites countedHost).shared.Accounted := by
  have small : ∀ call ∈ overwrites, call.Small := by
    intro call member
    rcases List.mem_pair.mp member with rfl | rfl
    · show Application.serializedLen _ < 2 ^ 31
      decide
    · show Application.serializedLen _ < 2 ^ 31
      decide
  have other : hitKey ≠ sharedMemoryCounterKey := by decide
  have first : countedHost.shared.KeepsAccount (.set hitKey longerApp 0) :=
    cacheInv_counted.keeps_set rfl other rfl (by decide)
  have longer : CacheInv (runCalls [.set hitKey longerApp 0] countedHost).shared :=
    (cacheInv_counted.step (small _ List.mem_cons_self)).2 first
  have second : (runCalls [.set hitKey longerApp 0] countedHost).shared.KeepsAccount
      (.set hitKey (cachedWith ∅) 0) :=
    longer.keeps_set rfl other rfl (by decide)
  have keeps : ∀ before call, before ++ [call] <+: overwrites →
      (runCalls before countedHost).shared.KeepsAccount call := by
    intro before call within
    match before with
    | [] =>
      obtain ⟨rfl, _⟩ := List.cons_prefix_cons.mp within
      exact first
    | [_] =>
      obtain ⟨rfl, later⟩ := List.cons_prefix_cons.mp within
      obtain ⟨rfl, _⟩ := List.cons_prefix_cons.mp later
      exact second
    | _ :: _ :: rest =>
      have short := within.length_le
      simp only [overwrites, List.length_append, List.length_cons, List.length_nil] at short
      omega
  exact (memoryCounter_accounted_iff (.accounted cacheInv_counted) small).mpr keeps _ List.prefix_rfl

/-- The first application to be stored. -/
theorem not_memoryCounter_accounted_first :
    ¬(runCalls [.set hitKey (cachedWith ∅) 0] (startedHost quietHost)).shared.Accounted := by
  have inv : CacheInv (startedHost quietHost).shared := cacheInv_started rfl
  have small : (CacheCall.set hitKey (cachedWith ∅) 0).Small := by
    show (cachedWith ∅).serializedLen < 2 ^ 31
    decide
  exact fun accounted => not_keepsAccount_started rfl (by decide) (by decide) ((inv.step small).1.mp accounted)

end ThreescaleCache
