import Mathlib.Algebra.Order.BigOperators.Group.List
import Mathlib.Algebra.Order.Group.Nat
import Mathlib.Data.List.Perm.Subperm
import ThreescaleCache.Linearization
import ThreescaleCache.QuotaBound

namespace ThreescaleCache
open Interaction

/-! The hits that a limit gives away to threads that race for it. -/

/-- The hits that the request of a thread has on a metric. -/
def Debiter.hitsOn (metric : Str) (party : Debiter) : Nat := ((party.data.metrics.lookup metric).getD 0).toNat

/-- The parties whose requests the limit check has authorized. -/
def authorizedParties {ι : Type} (t : List (ι × HostEvent)) : List ι :=
  (t.filter fun e => isAuthorized e.2).map Prod.fst

/-- The parties that have stored the application. -/
def storedParties {ι : Type} (K : Str) (t : List (ι × HostEvent)) : List ι := (storedAt K t).map Prod.fst

variable {ι : Type} [DecidableEq ι] {K metric : Str} {party : ι → Debiter} {initial last : Application}
  {first : UsageReport} {t : List (ι × HostEvent)}

theorem count_authorizedParties (t : List (ι × HostEvent)) (i : ι) :
    (authorizedParties t).count i = authorizationsOf t i := by
  unfold authorizedParties authorizationsOf
  rw [List.count_eq_countP, List.countP_map, List.countP_filter]
  exact List.countP_congr fun e _ => by simp

theorem count_storedParties (K : Str) (t : List (ι × HostEvent)) (i : ι) :
    (storedParties K t).count i = storesOf K t i := by
  unfold storedParties storesOf
  rw [List.count_eq_countP, List.countP_map, List.countP_eq_length_filter]
  exact congrArg List.length (List.filter_congr fun entry _ => beq_eq_decide ..)

/-- Parties that occur at most as often have at most as many hits. -/
theorem sum_le_of_count_le {is js : List ι} (hits : ι → Nat) (fewer : ∀ i, is.count i ≤ js.count i) :
    (is.map hits).sum ≤ (js.map hits).sum := by
  obtain ⟨is', perm, sublist⟩ := List.subperm_iff_count.mpr fewer
  rw [← (perm.map hits).sum_eq]
  exact (sublist.map hits).sum_le_sum fun _ _ => Nat.zero_le _

/-- A debit takes exactly the hits of its request from the allowance of the report. -/
theorem PeriodsLater.debit {report : UsageReport} {k : Nat} {now : Duration} {self : Debiter}
    {app app' : Application} (later : PeriodsLater first k report)
    (here : app.localState.lookup metric = some report)
    (debits : Debits now self.data.metrics.entries app app') :
    ∃ k' report', app'.localState.lookup metric = some report' ∧ PeriodsLater first k' report' ∧
      Ledger.Allowance.Takes first.maxValue.toNat (self.hitsOn metric) (report.allowance k)
        (report'.allowance k') ∧
      (k' = k ∨ k' ≤ (now.nanos - first.periodWindow.start.nanos) / first.periodWindow.window.nanos) := by
  unfold Debiter.hitsOn
  cases requested : self.data.metrics.lookup metric with
  | none =>
    have outside : metric ∉ self.data.metrics.entries.keys := AList.lookup_eq_none.mp requested
    exact ⟨k, report, (debits.untouched metric (Or.inl outside)).trans here, later, .same (Nat.zero_le _),
      Or.inl rfl⟩
  | some hits =>
    obtain ⟨renewed, renews, enough, charged⟩ :=
      debits.charged metric hits report (AList.mem_lookup_iff.mp requested) here
    obtain ⟨k', later', takes, epoch⟩ := later.charged renews enough
    exact ⟨k', renewed.charge hits, charged, later', takes, epoch⟩

omit [DecidableEq ι] in
/-- A history of debits takes their hits from the allowance, whose epochs are
the windows that some request has reached. -/
theorem debits_allowance {debits : List (ι × Application)}
    (applied : Applied (DebitBy party t) initial debits last)
    (here : initial.localState.lookup metric = some first)
    (length : first.periodWindow.end.nanos =
      first.periodWindow.start.nanos + first.periodWindow.window.nanos) :
    ∃ k report taken, last.localState.lookup metric = some report ∧ PeriodsLater first k report ∧
      Applied (Ledger.Allowance.Takes first.maxValue.toNat) (first.allowance 0) taken (report.allowance k) ∧
      taken.map Prod.fst = debits.map (fun debit => (party debit.1).hitsOn metric) ∧
      ∀ T : Duration, (∀ i now, CheckedAt (party i) t i now → now ≤ T) →
        k ≤ (T.nanos - first.periodWindow.start.nanos) / first.periodWindow.window.nanos := by
  induction applied with
  | start => exact ⟨0, first, [], here, ⟨rfl, rfl, by omega, by omega⟩, .start, rfl, fun _ _ => Nat.zero_le _⟩
  | @next _ _ i _ _ debit ih =>
    obtain ⟨k, report, taken, found, later, applied, amounts, reached⟩ := ih
    obtain ⟨now, info, checked, _, debits⟩ := debit
    obtain ⟨k', report', found', later', takes, epoch⟩ := later.debit found debits
    refine ⟨k', report', _, found', later', .next applied takes, ?_, fun T latest => ?_⟩
    · rw [List.map_append, List.map_append, amounts]
      rfl
    · rcases epoch with same | early
      · exact same ▸ reached T latest
      · have before := Duration.le_iff.mp (latest i now checked)
        exact early.trans (Nat.div_le_div_right (by omega))

/-- The hits of these parties on a metric. -/
def hitsOf {ι : Type} (metric : Str) (party : ι → Debiter) (is : List ι) : Nat :=
  (is.map fun i => (party i).hitsOn metric).sum

/-- Racing threads are authorized for no more hits than one after the other would
be. A request that is resumed after its last try, without a debit, is authorized
by nobody and not counted. `first` is the report of the limit at the start, and
`T` is no earlier than any request. -/
structure QuotaShared (K metric : Str) (party : ι → Debiter) (first : UsageReport) (T : Duration)
    (s : DebitConfig ι) : Prop where
  /-- Those that were authorized have no more hits than were left, and the
  maximum for each period that has gone by. -/
  bound : hitsOf metric party (authorizedParties s.trace) ≤ first.leftHits.toNat + first.maxValue.toNat *
    ((T.nanos - first.periodWindow.start.nanos) / first.periodWindow.window.nanos)
  /-- Within the first window every stored debit is missing from what is left. -/
  exact : T < first.periodWindow.end → ∃ app cas report,
    s.shared.shared.entry K = some (some (.application app), cas) ∧
    app.localState.lookup metric = some report ∧
    hitsOf metric party (storedParties K s.trace) + report.leftHits.toNat = first.leftHits.toNat
  /-- A thread that has finished was authorized exactly if its debit is stored. -/
  settled : (∀ i, s.procs i = .done ()) →
    hitsOf metric party (authorizedParties s.trace) = hitsOf metric party (storedParties K s.trace)

/-- The clock has shown no later time than `T` so far. -/
def clockUntil {ι : Type} (T : Duration) (t : List (ι × HostEvent)) : Bool :=
  t.all fun e => match e.2 with
    | ⟨.getCurrentTime, some now⟩ => now ≤ T
    | _ => true

end ThreescaleCache
