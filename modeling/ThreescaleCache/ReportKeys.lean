import ThreescaleCache.CacheKeys
import ThreescaleCache.Report
import ThreescaleCache.Separators

namespace ThreescaleCache

/-! The keys of the delta store, from the messages to the reports. -/

/-- The deltas after some messages. -/
def filed (sizes : Sizes) (deltas : Deltas) (messages : List ThreescaleData) : Deltas :=
  messages.foldl (fun deltas data => (DeltaStore.fileDelta sizes deltas data).1) deltas

/-- The messages of one service with one token. -/
def ofService (serviceId : ServiceId) (serviceToken : ServiceToken) (messages : List ThreescaleData) :
    List ThreescaleData :=
  messages.filter fun data => data.serviceId = serviceId ∧ data.serviceToken = serviceToken

/-- Reports go to the right service: what is filed under the key of these ids is
reported with them, and comes from their messages alone. -/
structure ReportsRight (serviceId : ServiceId) (serviceToken : ServiceToken) : Prop where
  decoded : ∀ apps, ∃ r, report (DeltaStore.deltaKey serviceId serviceToken) apps = some r ∧
    r.serviceId = serviceId ∧ r.serviceToken = serviceToken
  apart : ∀ sizes messages, (filed sizes ∅ messages).lookup (DeltaStore.deltaKey serviceId serviceToken) =
    (filed sizes ∅ (ofService serviceId serviceToken messages)).lookup
      (DeltaStore.deltaKey serviceId serviceToken)

section
variable {sizes : Sizes} {deltas deltas' : Deltas} {data : ThreescaleData}
  {serviceId : ServiceId} {serviceToken : ServiceToken}

/-- A message changes the entry under its own key only. -/
theorem fileDelta_other {key : Str} (other : key ≠ DeltaStore.deltaKey data.serviceId data.serviceToken) :
    (DeltaStore.fileDelta sizes deltas data).1.lookup key = deltas.lookup key := by
  unfold DeltaStore.fileDelta
  dsimp only
  split
  · split
    · exact AList.lookup_insert_ne other
    · exact AList.lookup_insert_ne other
  · exact AList.lookup_insert_ne other

/-- What it makes of that entry depends on the entry alone. -/
theorem fileDelta_own
    (same : deltas.lookup (DeltaStore.deltaKey data.serviceId data.serviceToken) =
      deltas'.lookup (DeltaStore.deltaKey data.serviceId data.serviceToken)) :
    (DeltaStore.fileDelta sizes deltas data).1.lookup (DeltaStore.deltaKey data.serviceId data.serviceToken) =
      (DeltaStore.fileDelta sizes deltas' data).1.lookup
        (DeltaStore.deltaKey data.serviceId data.serviceToken) := by
  cases here : deltas.lookup (DeltaStore.deltaKey data.serviceId data.serviceToken) with
  | none =>
    rw [DeltaStore.fileDelta_newService here, DeltaStore.fileDelta_newService (same.symm.trans here),
      AList.lookup_insert, AList.lookup_insert]
  | some service =>
    have there := same.symm.trans here
    cases known : service.lookup data.appId.asRef with
    | none =>
      rw [DeltaStore.fileDelta_newApp here known, DeltaStore.fileDelta_newApp there known,
        AList.lookup_insert, AList.lookup_insert]
    | some app =>
      obtain ⟨id, app⟩ := app
      rw [DeltaStore.fileDelta_known here known, DeltaStore.fileDelta_known there known,
        AList.lookup_insert, AList.lookup_insert]

/-- Ids without a separator have a key of their own. -/
theorem deltaKey_inj {id : ServiceId} {token : ServiceToken} (cleanId : '_' ∉ serviceId)
    (cleanToken : '_' ∉ serviceToken)
    (same : DeltaStore.deltaKey id token = DeltaStore.deltaKey serviceId serviceToken) :
    id = serviceId ∧ token = serviceToken := by
  rcases joined_eq_iff.mp same with equal | ⟨t, cut, _⟩ | ⟨t, _, cut⟩
  · exact equal
  · rw [cut] at cleanId
    exact absurd (List.mem_append_right id List.mem_cons_self) cleanId
  · rw [cut] at cleanToken
    exact absurd (List.mem_append_right t List.mem_cons_self) cleanToken

theorem filed_lookup (cleanId : '_' ∉ serviceId) (cleanToken : '_' ∉ serviceToken)
    (messages : List ThreescaleData)
    (same : deltas.lookup (DeltaStore.deltaKey serviceId serviceToken) =
      deltas'.lookup (DeltaStore.deltaKey serviceId serviceToken)) :
    (filed sizes deltas messages).lookup (DeltaStore.deltaKey serviceId serviceToken) =
      (filed sizes deltas' (ofService serviceId serviceToken messages)).lookup
        (DeltaStore.deltaKey serviceId serviceToken) := by
  induction messages generalizing deltas deltas' with
  | nil => exact same
  | cons data rest ih =>
    by_cases own : data.serviceId = serviceId ∧ data.serviceToken = serviceToken
    · have taken : ofService serviceId serviceToken (data :: rest) =
          data :: ofService serviceId serviceToken rest := List.filter_cons_of_pos (by simpa using own)
      obtain ⟨rfl, rfl⟩ := own
      rw [taken]
      exact ih (fileDelta_own same)
    · have left : ofService serviceId serviceToken (data :: rest) = ofService serviceId serviceToken rest :=
        List.filter_cons_of_neg (by simpa using own)
      have other : DeltaStore.deltaKey serviceId serviceToken ≠
          DeltaStore.deltaKey data.serviceId data.serviceToken :=
        fun equal => own (deltaKey_inj cleanId cleanToken equal.symm)
      rw [left]
      exact ih ((fileDelta_other other).trans same)

/-- The key is cut at its separators, so it is decoded exactly where its own
separator is the only one. -/
theorem report_decodes_iff {apps : AppMap Metrics} :
    (∃ r, report (DeltaStore.deltaKey serviceId serviceToken) apps = some r ∧ r.serviceId = serviceId ∧
      r.serviceToken = serviceToken) ↔ '_' ∉ serviceId ∧ '_' ∉ serviceToken := by
  rw [← Separators.splitOn_joined_iff, report, DeltaStore.deltaKey]
  cases parts : (serviceId ++ '_' :: serviceToken).splitOn '_' with
  | nil => exact absurd parts (List.splitOn_ne_nil _ _)
  | cons first rest =>
    cases rest with
    | nil => simp
    | cons second rest => simp

/-- Reports go to the right service exactly if neither the id nor the token has
an underscore. -/
theorem reportsRight_iff : ReportsRight serviceId serviceToken ↔ '_' ∉ serviceId ∧ '_' ∉ serviceToken := by
  constructor
  · intro right
    exact report_decodes_iff.mp (right.decoded ∅)
  · intro clean
    refine ⟨fun apps => report_decodes_iff.mpr clean, fun sizes messages => ?_⟩
    exact filed_lookup clean.1 clean.2 messages rfl

end

/-- The usage of the service a_b is reported for the service a, together with
that of the service a with the token b_c. -/
theorem not_reportsRight_underscore :
    ¬ReportsRight "a_b".toList "c".toList ∧
      DeltaStore.deltaKey "a_b".toList "c".toList = DeltaStore.deltaKey "a".toList "b_c".toList := by
  refine ⟨fun right => ?_, by decide⟩
  have clean := report_decodes_iff.mp (right.decoded ∅)
  exact clean.1 (by decide)

end ThreescaleCache
