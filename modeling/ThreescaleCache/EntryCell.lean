import Mathlib.Data.Finset.Card
import ThreescaleCache.Interaction.Overtaking
import ThreescaleCache.Linearization

namespace ThreescaleCache
open Interaction

/-! An entry of shared data as a cell, whose version is the CAS. -/

def accessTo (K : Str) : HostEvent → Access (Option Nat)
  | ⟨.getSharedData key, .ok (_, cas)⟩ => if key = K then .read cas else .aside
  | ⟨.setSharedData key _ _, .ok ()⟩ => if key = K then .wrote else .aside
  | ⟨.setSharedData key _ (some cas), .error .casMismatch⟩ => if key = K then .refused (some cas) else .aside
  | _ => .aside

/-- A write is refused only if the entry has another CAS. -/
theorem SharedData.refused_version {d : SharedData} {key : Str} {value : Option SharedValue} {cas : Nat}
    (refused : (d.set key value (some cas)).1 = .error .casMismatch) : (d.get key).2 ≠ some cas := by
  intro same
  cases here : d.entry key with
  | none =>
    rw [set_absent value (some cas) here] at refused
    cases refused
  | some stored =>
    obtain ⟨before, version⟩ := stored
    rw [get_present here] at same
    cases Option.some.inj same
    rw [set_match value here] at refused
    cases refused

theorem Host.exec_entry {K : Str} {c : HostCall} {h : Host} (not : accessTo K ⟨c, (exec c h).1⟩ ≠ .wrote) :
    (exec c h).2.shared.entry K = h.shared.entry K := by
  cases c with
  | setSharedData key value cas =>
    rcases h.shared.set_cases key value cas with put | refused
    · by_cases same : key = K
      · subst same
        refine absurd ?_ not
        simp only [exec, put, accessTo, if_true]
      · simp only [exec, put]
        exact h.shared.put_entry_ne value (Ne.symm same)
    · simp only [exec, refused]
  | _ => rfl

def entryCell (ι : Type) (K : Str) : Cell (fun _ : ι => Host.exec) (Option Nat) where
  version := fun h => (h.shared.get K).2
  access := accessTo K
  read := by
    intro _ c h version access
    cases c with
    | getSharedData key =>
      by_cases same : key = K
      · simp only [Host.exec, accessTo, same, if_true] at access
        cases access
        rfl
      · simp only [Host.exec, accessTo, same, if_false, reduceCtorEq] at access
    | setSharedData key value cas =>
      rcases h.shared.set_cases key value cas with put | refused
      · simp only [Host.exec, put, accessTo] at access
        split at access <;> cases access
      · cases cas with
        | none => simp only [Host.exec, refused, accessTo, reduceCtorEq] at access
        | some cas =>
          simp only [Host.exec, refused, accessTo] at access
          split at access <;> cases access
    | _ => cases access
  refused := by
    intro _ c h version access
    cases c with
    | getSharedData key =>
      simp only [Host.exec, accessTo] at access
      split at access <;> cases access
    | setSharedData key value cas =>
      rcases h.shared.set_cases key value cas with put | refused
      · simp only [Host.exec, put, accessTo] at access
        split at access <;> cases access
      · cases cas with
        | none => simp only [Host.exec, refused, accessTo, reduceCtorEq] at access
        | some cas =>
          simp only [Host.exec, refused, accessTo] at access
          split at access
          · rename_i same
            cases access
            subst same
            exact SharedData.refused_version (congrArg Prod.fst refused)
          · cases access
    | _ => cases access
  kept := by
    intro _ c h not
    show ((Host.exec c h).2.shared.get K).2 = _
    rw [SharedData.get, Host.exec_entry not]
    rfl

section
variable {ι : Type} [DecidableEq ι]

/-- All others than `i` that have stored a value under the key. -/
def otherWriters (K : Str) (i : ι) (t : List (ι × HostEvent)) : Finset ι :=
  (((storedAt K t).map Prod.fst).filter (· ≠ i)).toFinset

omit [DecidableEq ι] in
theorem storedBy_isSome (K : Str) (e : HostEvent) : (storedBy K e).isSome = (accessTo K e).isWrite := by
  obtain ⟨c, r⟩ := e
  cases c with
  | setSharedData key value cas =>
    match r, cas with
    | .ok (), _ | .error .casMismatch, some _ =>
      simp only [storedBy, accessTo]
      split <;> rfl
    | .error .casMismatch, none | .error .notFound, _ | .error .badArgument, _ | .error .empty, _
    | .error .internalFailure, _ => rfl
  | getSharedData key =>
    match r with
    | .ok (_, _) =>
      simp only [storedBy, accessTo]
      split <;> rfl
    | .error _ => rfl
  | _ => rfl

/-- Where everybody writes at most once, the writes of others are as many as the
others that have written. -/
theorem foreign_le_otherWriters {K : Str} {i : ι} {t : List (ι × HostEvent)} (once : ∀ j, storesOf K t j ≤ 1) :
    (entryCell ι K).foreign i t ≤ (otherWriters K i t).card := by
  have nodup : ((storedAt K t).map Prod.fst).Nodup := by
    refine List.nodup_iff_count_le_one.mpr fun j => ?_
    have one := once j
    rw [storesOf, ← List.countP_eq_length_filter] at one
    rw [List.count, List.countP_map]
    exact one
  rw [otherWriters, List.toFinset_card_of_nodup (nodup.filter _), ← List.countP_eq_length_filter,
    List.countP_map, storedAt, List.countP_filterMap, Cell.foreign]
  refine Nat.le_of_eq (List.countP_congr fun e _ => ?_)
  obtain ⟨j, e⟩ := e
  show (decide (j ≠ i) && (accessTo K e).isWrite) = true ↔ _
  rw [← storedBy_isSome]
  cases storedBy K e <;> simp

end
end ThreescaleCache
