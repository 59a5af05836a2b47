import Mathlib.Data.UInt
import ThreescaleCache.Ledger.Amount
import ThreescaleCache.SingletonRun

namespace ThreescaleCache
open Interaction

/-! Usage passes through the delta store without loss: what the messages
bring is held until a flush moves it into the reports. -/

/-- The key of the deltas, the application as hashing sees it, and a metric. -/
abbrev Account := Str × Str × Str

/-- The hits that a message brings for an account. -/
def hits (data : ThreescaleData) (a : Account) : UInt64 :=
  if DeltaStore.deltaKey data.serviceId data.serviceToken = a.1 ∧ data.appId.asRef = a.2.1 then
    (data.metrics.lookup a.2.2).getD 0
  else 0

/-- What an application map holds of a metric. -/
def AppMap.held (apps : AppMap Metrics) (app metric : Str) : UInt64 :=
  ((apps.lookup app).bind fun entry => entry.2.lookup metric).getD 0

/-- What the delta store holds for an account. -/
def Deltas.held (deltas : Deltas) (a : Account) : UInt64 :=
  ((deltas.lookup a.1).map fun apps => AppMap.held apps a.2.1 a.2.2).getD 0

/-! Filing -/

theorem updateAppDelta_held (sizes : Sizes) {entries : List (Sigma fun _ : Str => UInt64)}
    (nodup : entries.NodupKeys) (appDelta : Metrics) (alloc : UInt32) (metric : Str) :
    ((DeltaStore.updateAppDelta sizes entries appDelta alloc).1.lookup metric).getD 0 =
      (appDelta.lookup metric).getD 0 + (entries.dlookup metric).getD 0 := by
  induction entries generalizing appDelta alloc with
  | nil => simp [DeltaStore.updateAppDelta]
  | cons entry rest ih =>
    obtain ⟨name, value⟩ := entry
    obtain ⟨fresh, nodupRest⟩ := List.nodupKeys_cons.mp nodup
    have added : ∀ alloc', ((DeltaStore.updateAppDelta sizes rest
          (appDelta.insert name ((appDelta.lookup name).getD 0 + value)) alloc').1.lookup metric).getD 0 =
        (appDelta.lookup metric).getD 0 + (List.dlookup metric (⟨name, value⟩ :: rest)).getD 0 := by
      intro alloc'
      rw [ih nodupRest]
      by_cases same : metric = name
      · subst same
        have absent : rest.dlookup metric = none := List.dlookup_eq_none.mpr fresh
        simp [absent]
      · rw [AList.lookup_insert_ne same, List.dlookup_cons_ne _ _ same]
    unfold DeltaStore.updateAppDelta
    cases here : appDelta.lookup name with
    | some held => simpa [here] using added alloc
    | none => simpa [here] using added (alloc + DeltaStore.metricAlloc sizes)

theorem AppMap.held_insert (apps : AppMap Metrics) (app : Str) (entry : AppIdentifier × Metrics)
    (other metric : Str) :
    AppMap.held (apps.insert app entry) other metric =
      if other = app then (entry.2.lookup metric).getD 0 else AppMap.held apps other metric := by
  unfold AppMap.held
  by_cases same : other = app
  · rw [same, AList.lookup_insert, if_pos rfl]
    rfl
  · rw [AList.lookup_insert_ne same, if_neg same]

theorem Deltas.held_insert (deltas : Deltas) (key : Str) (apps : AppMap Metrics) (a : Account) :
    Deltas.held (deltas.insert key apps) a =
      if a.1 = key then AppMap.held apps a.2.1 a.2.2 else Deltas.held deltas a := by
  unfold Deltas.held
  by_cases same : a.1 = key
  · rw [same, AList.lookup_insert, if_pos rfl]
    rfl
  · rw [AList.lookup_insert_ne same, if_neg same]

/-- The hits of a message, where its service and application are known. -/
theorem hits_eq (data : ThreescaleData) (a : Account) :
    hits data a =
      if a.1 = DeltaStore.deltaKey data.serviceId data.serviceToken then
        if a.2.1 = data.appId.asRef then (data.metrics.lookup a.2.2).getD 0 else 0
      else 0 := by
  simp only [hits, ite_and, eq_comm]

theorem AppMap.held_of_lookup {apps : AppMap Metrics} {app : Str} {id : AppIdentifier} {metrics : Metrics}
    (here : apps.lookup app = some (id, metrics)) (metric : Str) :
    AppMap.held apps app metric = (metrics.lookup metric).getD 0 := by
  simp only [AppMap.held, here, Option.bind_some]

theorem AppMap.held_absent {apps : AppMap Metrics} {app : Str} (absent : apps.lookup app = none)
    (metric : Str) : AppMap.held apps app metric = 0 := by
  simp only [AppMap.held, absent, Option.bind_none, Option.getD_none]

theorem Deltas.held_of_lookup {deltas : Deltas} {apps : AppMap Metrics} {a : Account}
    (here : deltas.lookup a.1 = some apps) : Deltas.held deltas a = AppMap.held apps a.2.1 a.2.2 := by
  simp only [Deltas.held, here, Option.map_some, Option.getD_some]

theorem Deltas.held_absent {deltas : Deltas} {a : Account} (absent : deltas.lookup a.1 = none) :
    Deltas.held deltas a = 0 := by
  simp only [Deltas.held, absent, Option.map_none, Option.getD_none]

/-- The map of a service after a message holds the message's hits more. -/
theorem filedService_held {service service' : AppMap Metrics} {data : ThreescaleData} {id : AppIdentifier}
    {app : Metrics} (filed : service' = service.insert data.appId.asRef (id, app))
    (added : ∀ metric, (app.lookup metric).getD 0 =
      AppMap.held service data.appId.asRef metric + (data.metrics.lookup metric).getD 0)
    (other metric : Str) :
    AppMap.held service' other metric = AppMap.held service other metric +
      if other = data.appId.asRef then (data.metrics.lookup metric).getD 0 else 0 := by
  rw [filed, AppMap.held_insert]
  by_cases same : other = data.appId.asRef
  · rw [if_pos same, if_pos same, same]
    exact added metric
  · rw [if_neg same, if_neg same, add_zero]

/-- A message adds its hits to the accounts that it names, and leaves all
others as they are. -/
theorem fileDelta_held (sizes : Sizes) (deltas : Deltas) (data : ThreescaleData) (a : Account) :
    Deltas.held (DeltaStore.fileDelta sizes deltas data).1 a = Deltas.held deltas a + hits data a := by
  have inserted : ∀ {service service' : AppMap Metrics} {id app},
      Deltas.held deltas a = AppMap.held service a.2.1 a.2.2 →
      service' = service.insert data.appId.asRef (id, app) →
      (∀ metric, (app.lookup metric).getD 0 =
        AppMap.held service data.appId.asRef metric + (data.metrics.lookup metric).getD 0) →
      a.1 = DeltaStore.deltaKey data.serviceId data.serviceToken →
      AppMap.held service' a.2.1 a.2.2 = Deltas.held deltas a + hits data a := by
    intro service service' id app before filed added key
    rw [before, hits_eq, if_pos key]
    exact filedService_held filed added a.2.1 a.2.2
  have elsewhere : a.1 ≠ DeltaStore.deltaKey data.serviceId data.serviceToken → hits data a = 0 := by
    intro different
    rw [hits_eq, if_neg different]
  cases service_ : deltas.lookup (DeltaStore.deltaKey data.serviceId data.serviceToken) with
  | none =>
    rw [DeltaStore.fileDelta_newService service_, Deltas.held_insert]
    split
    · rename_i key
      refine inserted ?_ rfl ?_ key
      · rw [Deltas.held_absent (by rw [key, service_]), AppMap.held_absent (AList.lookup_empty _)]
      · intro metric
        rw [AppMap.held_absent (AList.lookup_empty _), zero_add]
    · rename_i different
      rw [elsewhere different, add_zero]
  | some service =>
    have before : a.1 = DeltaStore.deltaKey data.serviceId data.serviceToken →
        Deltas.held deltas a = AppMap.held service a.2.1 a.2.2 :=
      fun key => Deltas.held_of_lookup (by rw [key, service_])
    cases app_ : service.lookup data.appId.asRef with
    | none =>
      rw [DeltaStore.fileDelta_newApp service_ app_, Deltas.held_insert]
      split
      · rename_i key
        refine inserted (before key) rfl ?_ key
        intro metric
        rw [AppMap.held_absent app_, zero_add]
      · rename_i different
        rw [elsewhere different, add_zero]
    | some entry =>
      obtain ⟨id, app⟩ := entry
      rw [DeltaStore.fileDelta_known service_ app_, Deltas.held_insert]
      split
      · rename_i key
        refine inserted (before key) rfl ?_ key
        intro metric
        rw [AppMap.held_of_lookup app_, updateAppDelta_held sizes data.metrics.nodupKeys]
        rfl
      · rename_i different
        rw [elsewhere different, add_zero]

/-! Flushing -/

def appLines (key app : Str) (metrics : Metrics) : List (Account × UInt64) :=
  metrics.entries.map fun entry => ((key, app, entry.1), entry.2)

def serviceLines (key : Str) (apps : AppMap Metrics) : List (Account × UInt64) :=
  apps.entries.flatMap fun entry => appLines key entry.1 entry.2.2

/-- The store as a book, with one line for each stored metric. -/
def Deltas.lines (deltas : Deltas) : List (Account × UInt64) :=
  deltas.entries.flatMap fun entry => serviceLines entry.1 entry.2

/-- The lines of a report: its values are read as the API reads them. -/
def BuiltReport.lines (b : BuiltReport) : List (Account × UInt64) :=
  b.2.usages.entries.flatMap fun entry =>
    entry.2.2.map fun usage => ((b.1, entry.1, usage.1), (parseU64 usage.2).getD 0)

theorem parseDigits_toDigits (n : UInt64) : parseDigits (Nat.toDigits 10 n.toNat) = some n := by
  have number : (Nat.toDigits 10 n.toNat).foldl (fun m c => 10 * m + (c.toNat - '0'.toNat)) 0 = n.toNat :=
    Nat.ofDigitChars_ten_toDigits
  have digits : (Nat.toDigits 10 n.toNat).all Char.isDigit = true :=
    List.all_eq_true.mpr fun c member => Nat.isDigit_of_mem_toDigits (by decide) (by decide) member
  have nonempty : (Nat.toDigits 10 n.toNat).isEmpty = false :=
    List.isEmpty_eq_false_iff.mpr Nat.toDigits_ne_nil
  have small : ¬2 ^ 64 ≤ n.toNat := Nat.not_le.mpr n.toNat_lt
  unfold parseDigits
  dsimp only
  rw [number]
  simp only [nonempty, digits, Bool.not_true, Bool.or_self, small, decide_false, if_false,
    UInt64.ofNat_toNat, Bool.false_eq_true]

/-- A reported value is read as the number that was stored. -/
theorem parseU64_toDigits (n : UInt64) : parseU64 (Nat.toDigits 10 n.toNat) = some n := by
  unfold parseU64
  split
  · rename_i rest signed
    have digit : '+'.isDigit = true :=
      Nat.isDigit_of_mem_toDigits (by decide) (by decide) (signed ▸ List.mem_cons_self)
    exact absurd digit (by decide)
  · exact parseDigits_toDigits n

theorem usageOf_lines (key app : Str) (metrics : Metrics) :
    (usageOf metrics).map (fun usage => (((key, app, usage.1) : Account), (parseU64 usage.2).getD 0)) =
      appLines key app metrics := by
  simp only [usageOf, appLines, List.map_map, Function.comp_def, parseU64_toDigits, Option.getD_some]

/-- The loop over the applications puts each of them in front. -/
theorem usagesOf_entries {rest : List (Sigma fun _ : Str => AppIdentifier × Metrics)}
    {usages : AppMap (List (Str × Str))} (keys : rest.NodupKeys)
    (fresh : ∀ app ∈ rest.keys, app ∉ usages) :
    (usagesOf rest usages).entries =
      (rest.map fun entry => ⟨entry.1, entry.2.1, usageOf entry.2.2⟩).reverse ++ usages.entries := by
  induction rest generalizing usages with
  | nil => rfl
  | cons entry rest ih =>
    obtain ⟨app, id, appDeltas⟩ := entry
    obtain ⟨new, keysRest⟩ := List.nodupKeys_cons.mp keys
    have absent : app ∉ usages := fresh app List.mem_cons_self
    have freshRest : ∀ other ∈ rest.keys, other ∉ usages.insert app (id, usageOf appDeltas) := by
      intro other member inserted
      rcases (AList.mem_insert usages).mp inserted with same | old
      · rw [same] at member
        exact new member
      · exact fresh other (List.mem_cons_of_mem app member) old
    unfold usagesOf
    rw [ih keysRest freshRest, AList.entries_insert_of_notMem absent]
    simp only [List.map_cons, List.reverse_cons, List.append_assoc, List.singleton_append]

theorem report_usages {key : Str} {apps : AppMap Metrics} {b : Report} (built : report key apps = some b) :
    b.usages = usagesOf apps.entries ∅ := by
  unfold report at built
  split at built
  · rw [← Option.some.inj built]
  · cases built

/-- A report has exactly the lines of the service that it is built from. -/
theorem report_lines {key : Str} {apps : AppMap Metrics} {b : Report} (built : report key apps = some b) :
    (BuiltReport.lines (key, b)).Perm (serviceLines key apps) := by
  unfold BuiltReport.lines serviceLines
  dsimp only
  rw [report_usages built, usagesOf_entries apps.nodupKeys fun app _ => AList.notMem_empty app,
    AList.empty_entries, List.append_nil]
  refine ((List.reverse_perm _).flatMap_right _).trans ?_
  rw [List.flatMap_map]
  simp only [usageOf_lines]
  exact List.Perm.refl _

theorem reports_lines {entries : List (Sigma fun _ : Str => AppMap Metrics)} {built : List BuiltReport}
    (reports : List.Forall₂ (fun entry b => entry.1 = b.1 ∧ report entry.1 entry.2 = some b.2) entries built) :
    (built.flatMap BuiltReport.lines).Perm (entries.flatMap fun entry => serviceLines entry.1 entry.2) := by
  induction reports with
  | nil => exact List.Perm.refl _
  | @cons entry b entries built first _ ih =>
    obtain ⟨key, b⟩ := b
    obtain ⟨same, formed⟩ := first
    dsimp only at same formed
    subst same
    exact (report_lines formed).append ih

/-- No account has two lines. -/
theorem lines_nodup (deltas : Deltas) : ((Deltas.lines deltas).map Prod.fst).Nodup := by
  unfold Deltas.lines
  rw [List.map_flatMap]
  refine Ledger.nodup_flatMap_keyed deltas.nodupKeys (fun a : Account => a.1) ?_ ?_
  · intro service a member
    obtain ⟨line, inService, rfl⟩ := List.mem_map.mp member
    obtain ⟨app, _, inApp⟩ := List.mem_flatMap.mp inService
    obtain ⟨_, _, rfl⟩ := List.mem_map.mp inApp
    rfl
  · intro service _
    unfold serviceLines
    rw [List.map_flatMap]
    refine Ledger.nodup_flatMap_keyed service.2.nodupKeys (fun a : Account => a.2.1) ?_ ?_
    · intro app a member
      obtain ⟨line, inApp, rfl⟩ := List.mem_map.mp member
      obtain ⟨_, _, rfl⟩ := List.mem_map.mp inApp
      rfl
    · intro app _
      unfold appLines
      rw [List.map_map]
      have metrics : app.2.2.entries.keys.Nodup := app.2.2.nodupKeys
      refine List.Nodup.of_map (fun a : Account => a.2.2) ?_
      rw [List.map_map]
      exact metrics

theorem mem_lines {deltas : Deltas} {a : Account} {value : UInt64} :
    (a, value) ∈ Deltas.lines deltas ↔ ∃ apps entry, deltas.lookup a.1 = some apps ∧
      apps.lookup a.2.1 = some entry ∧ entry.2.lookup a.2.2 = some value := by
  obtain ⟨key, app, metric⟩ := a
  constructor
  · intro member
    obtain ⟨⟨_, apps⟩, service, inService⟩ := List.mem_flatMap.mp member
    obtain ⟨⟨_, entry⟩, known, inApp⟩ := List.mem_flatMap.mp inService
    obtain ⟨⟨_, v⟩, stored, same⟩ := List.mem_map.mp inApp
    cases same
    exact ⟨apps, entry, AList.mem_lookup_iff.mpr service, AList.mem_lookup_iff.mpr known,
      AList.mem_lookup_iff.mpr stored⟩
  · intro looked
    obtain ⟨apps, entry, service, known, stored⟩ := looked
    refine List.mem_flatMap.mpr ⟨⟨key, apps⟩, AList.mem_lookup_iff.mp service, ?_⟩
    refine List.mem_flatMap.mpr ⟨⟨app, entry⟩, AList.mem_lookup_iff.mp known, ?_⟩
    exact List.mem_map.mpr ⟨⟨metric, value⟩, AList.mem_lookup_iff.mp stored, rfl⟩

/-- What the store holds is what its lines come to. -/
theorem held_eq_amount (deltas : Deltas) (a : Account) :
    Deltas.held deltas a = Ledger.amount a (Deltas.lines deltas) := by
  by_cases line : ∃ value, (a, value) ∈ Deltas.lines deltas
  · obtain ⟨value, member⟩ := line
    obtain ⟨apps, ⟨id, metrics⟩, service, known, stored⟩ := mem_lines.mp member
    rw [Ledger.amount_of_mem (lines_nodup deltas) member, Deltas.held_of_lookup service,
      AppMap.held_of_lookup known, stored]
    rfl
  · have absent : ∀ other ∈ Deltas.lines deltas, other.1 ≠ a := by
      intro other member same
      subst same
      exact line ⟨other.2, member⟩
    rw [Ledger.amount_of_notMem absent]
    cases service : deltas.lookup a.1 with
    | none => exact Deltas.held_absent service
    | some apps =>
      rw [Deltas.held_of_lookup service]
      cases known : apps.lookup a.2.1 with
      | none => exact AppMap.held_absent known a.2.2
      | some entry =>
        obtain ⟨id, metrics⟩ := entry
        rw [AppMap.held_of_lookup known]
        cases stored : metrics.lookup a.2.2 with
        | none => rfl
        | some value => exact absurd ⟨value, mem_lines.mpr ⟨apps, _, service, known, stored⟩⟩ line

/-! The law of conservation -/

/-- The hits of an account in all messages taken so far. -/
def SingletonRun.brought (r : SingletonRun) (a : Account) : UInt64 := (r.taken.map (hits · a)).sum

/-- What is still held, and what has gone into reports. -/
def SingletonRun.accounted (r : SingletonRun) (a : Account) : UInt64 :=
  Deltas.held r.service.deltaStore.deltas a + Ledger.amount a (r.built.flatMap BuiltReport.lines)

theorem updateDeltaStore_deltas (sizes : Sizes) (store : DeltaStore) (data : ThreescaleData) :
    (store.updateDeltaStore sizes data).1.deltas = (DeltaStore.fileDelta sizes store.deltas data).1 := by
  unfold DeltaStore.updateDeltaStore
  dsimp only
  split <;> rfl

theorem filed_deltas (sizes : Sizes) (s : SingletonService) (data : ThreescaleData) :
    (s.filed sizes data).deltaStore.deltas = (DeltaStore.fileDelta sizes s.deltaStore.deltas data).1 :=
  updateDeltaStore_deltas sizes s.deltaStore data

/-- A flush moves what is held into the reports. -/
theorem flushed_amount {s s' : SingletonService} {t : List HostEvent} {built : List BuiltReport}
    (flushed : SingletonService.Flushed s t s' built) (a : Account) :
    Ledger.amount a (built.flatMap BuiltReport.lines) = Deltas.held s.deltaStore.deltas a ∧
      Deltas.held s'.deltaStore.deltas a = 0 := by
  constructor
  · rw [held_eq_amount]
    exact Ledger.amount_perm a (reports_lines flushed.reports)
  · rw [flushed.emptied]
    exact Deltas.held_absent (AList.lookup_empty _)

theorem ended_amount {s s' : SingletonService} {t : List HostEvent} {built : List BuiltReport}
    (ended : SingletonService.Ended s t s' built) (a : Account) :
    Deltas.held s'.deltaStore.deltas a + Ledger.amount a (built.flatMap BuiltReport.lines) =
      Deltas.held s.deltaStore.deltas a := by
  cases ended with
  | kept same none_ =>
    rw [same, none_]
    exact add_zero _
  | flushed flushed =>
    obtain ⟨moved, emptied⟩ := flushed_amount flushed a
    rw [moved, emptied, zero_add]

theorem responded_deltaStore {s s' : SingletonService} {token : Nat} {response : CallResponse}
    {t : List HostEvent} (responded : SingletonService.Responded s token response t s') :
    s'.deltaStore = s.deltaStore := by
  cases responded <;> rfl

/-- A callback holds or reports what was held before and the hits of the
message that it took. -/
theorem callback_amount {calls : ApiCalls} {sizes : Sizes} {r : SingletonRun} {occasion : Occasion}
    {t : List HostEvent} {s : SingletonService} {built : List BuiltReport}
    (path : Prog.Path (occasion.callback calls sizes r.service) t (.done (s, built))) (a : Account) :
    Deltas.held s.deltaStore.deltas a + Ledger.amount a (built.flatMap BuiltReport.lines) =
      Deltas.held r.service.deltaStore.deltas a + ((dequeued t).map (hits · a)).sum := by
  rcases SingletonRun.callback_ended path with ⟨_, received⟩ | ⟨_, ended⟩ |
    ⟨token, response, _, rfl, _, taken, responded⟩
  · cases received with
    | nothing same none_ _ taken =>
      rw [same, none_, taken]
      rfl
    | message data later taken _ ended =>
      rw [ended_amount ended, filed_deltas, fileDelta_held, taken]
      simp only [List.map_cons, List.map_nil, List.sum_cons, List.sum_nil, add_zero]
  · rw [ended_amount ended, ended.nothingTaken]
    exact (add_zero _).symm
  · rw [responded_deltaStore responded, taken]
    rfl

theorem accounted_step {calls : ApiCalls} {sizes : Sizes}
    {admits : SingletonRun → Occasion → List HostEvent → Prop} {r r' : SingletonRun}
    (step : SingletonRun.Step calls sizes admits r r') (a : Account) (before : r.brought a = r.accounted a) :
    r'.brought a = r'.accounted a := by
  obtain ⟨occasion, t, s, built, _, path⟩ := step
  have carried := Ledger.balance_carried before (callback_amount path a)
  simpa only [SingletonRun.brought, SingletonRun.accounted, SingletonRun.after, List.map_append,
    List.sum_append, List.flatMap_append, Ledger.amount_append] using carried

/-! No callback is cut short -/

/-- Every key of the deltas has a separator. -/
def Separated (deltas : Deltas) : Prop := ∀ key ∈ deltas, ∃ serviceId serviceToken,
  key = DeltaStore.deltaKey serviceId serviceToken

theorem report_isSome (serviceId : ServiceId) (serviceToken : ServiceToken) (apps : AppMap Metrics) :
    ∃ b, report (DeltaStore.deltaKey serviceId serviceToken) apps = some b := by
  have parts : (DeltaStore.deltaKey serviceId serviceToken).splitOn '_' =
      serviceId.splitOn '_' ++ serviceToken.splitOn '_' := List.splitOn_append_cons_self serviceId serviceToken
  unfold report
  rw [parts]
  cases first : serviceId.splitOn '_' with
  | nil => exact absurd first (List.splitOn_ne_nil '_' serviceId)
  | cons a rest =>
    cases rest with
    | cons b rest => exact ⟨_, rfl⟩
    | nil =>
      cases second : serviceToken.splitOn '_' with
      | nil => exact absurd second (List.splitOn_ne_nil '_' serviceToken)
      | cons b rest => exact ⟨_, rfl⟩

theorem separated_fileDelta {sizes : Sizes} {deltas : Deltas} {data : ThreescaleData}
    (separated : Separated deltas) : Separated (DeltaStore.fileDelta sizes deltas data).1 := by
  have inserted : ∀ apps : AppMap Metrics,
      Separated (deltas.insert (DeltaStore.deltaKey data.serviceId data.serviceToken) apps) := by
    intro apps key member
    rcases (AList.mem_insert deltas).mp member with same | old
    · exact ⟨_, _, same⟩
    · exact separated key old
  unfold DeltaStore.fileDelta
  dsimp only
  split
  · split
    · exact inserted _
    · exact inserted _
  · exact inserted _

theorem returns_performHttpCall (ok : HostEvent → Prop) (request : HttpRequest) :
    (SingletonService.performHttpCall request).Returns ok := fun _ _ => trivial

theorem returns_sendReports (ok : HostEvent → Prop) {calls : ApiCalls}
    (builds : ∀ call, (calls.buildReport call).isSome)
    {entries : List (Sigma fun _ : Str => AppMap Metrics)}
    (separated : ∀ entry ∈ entries, ∃ serviceId serviceToken,
      entry.1 = DeltaStore.deltaKey serviceId serviceToken) (s : SingletonService) :
    (SingletonService.sendReports calls entries s).Returns ok := by
  induction entries generalizing s with
  | nil => trivial
  | cons entry rest ih =>
    obtain ⟨key, apps⟩ := entry
    obtain ⟨serviceId, serviceToken, same⟩ := separated _ List.mem_cons_self
    dsimp only at same
    subst same
    obtain ⟨b, formed⟩ := report_isSome serviceId serviceToken apps
    obtain ⟨request, built⟩ := Option.isSome_iff_exists.mp (builds b.call)
    have later := ih fun entry member => separated entry (List.mem_cons_of_mem _ member)
    unfold SingletonService.sendReports
    simp only [formed, built]
    refine Prog.returns_bind (returns_performHttpCall ok request) fun reply => ?_
    cases reply with
    | ok token => exact Prog.returns_bind (later _) fun _ => trivial
    | error e => exact Prog.returns_bind (later _) fun _ => trivial

theorem returns_sendAuthRequests (ok : HostEvent → Prop) (calls : ApiCalls)
    (entries : List (Sigma fun _ : Str => CacheKey × ServiceToken)) (s : SingletonService) :
    (SingletonService.sendAuthRequests calls entries s).Returns ok := by
  induction entries generalizing s with
  | nil => trivial
  | cons entry rest ih =>
    obtain ⟨_, cacheKey, serviceToken⟩ := entry
    unfold SingletonService.sendAuthRequests
    cases calls.buildAuth (authCall cacheKey serviceToken) with
    | none => exact ih s
    | some request =>
      refine Prog.returns_bind (returns_performHttpCall ok request) fun reply => ?_
      cases reply with
      | ok token => exact ih _
      | error e => exact ih s

theorem returns_flushLocalCache (ok : HostEvent → Prop) {calls : ApiCalls}
    (builds : ∀ call, (calls.buildReport call).isSome) {s : SingletonService} (separated : Separated s.deltaStore.deltas) :
    (s.flushLocalCache calls).Returns ok := by
  refine Prog.returns_bind (returns_sendReports ok builds ?_ _) fun sent => ?_
  · intro entry member
    exact separated entry.1 (AList.mem_keys.mpr (List.mem_map_of_mem member))
  · exact Prog.returns_bind (returns_sendAuthRequests ok calls _ _) fun _ => trivial

theorem returns_recordUsage (ok : HostEvent → Prop) {calls : ApiCalls}
    (builds : ∀ call, (calls.buildReport call).isSome) {sizes : Sizes} {s : SingletonService} (separated : Separated s.deltaStore.deltas)
    (data : ThreescaleData) : (s.recordUsage calls sizes data).Returns ok := by
  have kept : Separated (s.filed sizes data).deltaStore.deltas := by
    rw [filed_deltas]
    exact separated_fileDelta separated
  unfold SingletonService.recordUsage
  dsimp only
  rw [SingletonService.noteCacheKey_deltaStore]
  split
  · exact returns_flushLocalCache ok builds kept
  · trivial

/-- A message that wants no update of the cache, or no message. -/
def Plain : HostEvent → Prop
  | ⟨.dequeueSharedQueue _, .ok (some (.message message))⟩ => message.updateCacheFromSingleton = false
  | ⟨.dequeueSharedQueue _, .ok (some (.waiterAction _))⟩ => False
  | _ => True

theorem returns_onQueueReady {calls : ApiCalls} (builds : ∀ call, (calls.buildReport call).isSome)
    {sizes : Sizes} {s : SingletonService} (registered : s.queueId.isSome)
    (separated : Separated s.deltaStore.deltas) : (s.onQueueReady calls sizes).Returns Plain := by
  obtain ⟨queueId, queue⟩ := Option.isSome_iff_exists.mp registered
  unfold SingletonService.onQueueReady
  rw [queue]
  intro reply plain
  match reply, plain with
  | .error e, _ => trivial
  | .ok none, _ => trivial
  | .ok (some (.waiterAction action)), impossible => exact impossible.elim
  | .ok (some (.message message)), plain =>
    have still : message.updateCacheFromSingleton = false := plain
    show Prog.Returns Plain (if message.updateCacheFromSingleton = true then _ else _)
    rw [still, if_neg Bool.false_ne_true]
    exact returns_recordUsage Plain builds separated message.data

theorem returns_onTick {calls : ApiCalls} (builds : ∀ call, (calls.buildReport call).isSome)
    {s : SingletonService} (separated : Separated s.deltaStore.deltas) : (s.onTick calls).Returns Plain := by
  unfold SingletonService.onTick
  split
  · exact returns_flushLocalCache Plain builds separated
  · trivial

theorem flushed_deltas {s s' : SingletonService} {t : List HostEvent} {built : List BuiltReport}
    (flushed : SingletonService.Flushed s t s' built) : s'.deltaStore.deltas = ∅ := by
  rw [flushed.emptied]

theorem ended_separated {s s' : SingletonService} {t : List HostEvent} {built : List BuiltReport}
    (ended : SingletonService.Ended s t s' built) (separated : Separated s.deltaStore.deltas) :
    Separated s'.deltaStore.deltas := by
  cases ended with
  | kept same => rwa [same]
  | flushed flushed =>
    rw [flushed_deltas flushed]
    intro key member
    exact absurd member (AList.notMem_empty key)

theorem ended_queueId {s s' : SingletonService} {t : List HostEvent} {built : List BuiltReport}
    (ended : SingletonService.Ended s t s' built) : s'.queueId = s.queueId := by
  cases ended with
  | kept same => rw [same]
  | flushed flushed => exact flushed.queueId

/-- What lets the callbacks go on: a queue, and separators in the keys. -/
def InService (r : SingletonRun) : Prop :=
  r.service.queueId.isSome ∧ Separated r.service.deltaStore.deltas

theorem inService_step {calls : ApiCalls} {sizes : Sizes}
    {admits : SingletonRun → Occasion → List HostEvent → Prop} {r r' : SingletonRun}
    (inService : InService r) (step : SingletonRun.Step calls sizes admits r r') : InService r' := by
  obtain ⟨occasion, t, s, built, _, path⟩ := step
  obtain ⟨queue, separated⟩ := inService
  rcases SingletonRun.callback_ended path with ⟨_, received⟩ | ⟨_, ended⟩ |
    ⟨token, response, _, _, _, _, responded⟩
  · cases received with
    | nothing same => exact same ▸ ⟨queue, separated⟩
    | message data later _ _ ended =>
      refine ⟨?_, ended_separated ended ?_⟩
      · show s.queueId.isSome
        rw [ended_queueId ended]
        exact (congrArg Option.isSome (SingletonService.noteCacheKey_queueId r.service data)).trans queue
      · rw [filed_deltas]
        exact separated_fileDelta separated
  · exact ⟨(congrArg Option.isSome (ended_queueId ended)).trans queue, ended_separated ended separated⟩
  · refine ⟨?_, ?_⟩
    · show s.queueId.isSome
      cases responded <;> exact queue
    · show Separated s.deltaStore.deltas
      rw [responded_deltaStore responded]
      exact separated

/-- The messages of a run want no update of the cache. -/
def onlyPlain (_ : SingletonRun) (_ : Occasion) (t : List HostEvent) : Prop := ∀ e ∈ t, Plain e

/-- No usage is lost or counted twice: what the messages brought is held or
reported, a flush moves each line of the store into one report and empties
it, and the order of the messages does not matter. Neither callback is cut
short. -/
structure UsageConserved (calls : ApiCalls) (sizes : Sizes) (queueId : Nat) (r : SingletonRun) : Prop where
  balance : ∀ a, r.brought a = r.accounted a
  flush : ∀ (s : SingletonService) t s' built,
    Prog.Path (s.flushLocalCache calls) t (.done (s', built)) →
      (built.flatMap BuiltReport.lines).Perm (Deltas.lines s.deltaStore.deltas) ∧
      ((Deltas.lines s.deltaStore.deltas).map Prod.fst).Nodup ∧ s'.deltaStore.deltas = ∅
  unordered : ∀ config r', SingletonRun.Runs calls sizes onlyPlain (some queueId) config r' →
    r.taken.Perm r'.taken → ∀ a, r.accounted a = r'.accounted a
  returns : (r.service.onQueueReady calls sizes).Returns Plain ∧ (r.service.onTick calls).Returns Plain

theorem brought_eq_accounted {calls : ApiCalls} {sizes : Sizes}
    {admits : SingletonRun → Occasion → List HostEvent → Prop} {queueId : Option Nat}
    {config : DeltaStoreConfig} {r : SingletonRun}
    (runs : SingletonRun.Runs calls sizes admits queueId config r) (a : Account) :
    r.brought a = r.accounted a := by
  refine runs.invariant ?_ fun r r' before step => accounted_step step a before
  have empty : Deltas.held (∅ : Deltas) a = 0 := Deltas.held_absent (AList.lookup_empty a.1)
  show (0 : UInt64) = Deltas.held ∅ a + 0
  rw [empty, add_zero]

theorem usage_conserved {calls : ApiCalls} (builds : ∀ call, (calls.buildReport call).isSome)
    {sizes : Sizes} {queueId : Nat} {config : DeltaStoreConfig} {r : SingletonRun}
    (runs : SingletonRun.Runs calls sizes onlyPlain (some queueId) config r) :
    UsageConserved calls sizes queueId r := by
  have inService : InService r := by
    refine runs.invariant ⟨rfl, ?_⟩ fun _ _ => inService_step
    intro key member
    exact absurd member (AList.notMem_empty key)
  refine ⟨brought_eq_accounted runs, ?_, ?_, ?_⟩
  · intro s t s' built path
    have flushed := SingletonService.flushLocalCache_flushed path
    exact ⟨reports_lines flushed.reports, lines_nodup _, flushed_deltas flushed⟩
  · intro config' r' runs' perm a
    calc r.accounted a = r.brought a := (brought_eq_accounted runs a).symm
      _ = r'.brought a := (perm.map _).sum_eq
      _ = r'.accounted a := brought_eq_accounted runs' a
  · exact ⟨returns_onQueueReady builds inService.1 inService.2, returns_onTick builds inService.2⟩

theorem flushedRun_plain :
    SingletonRun.Runs oneHitCalls wasmSizes onlyPlain (some 7) { capacity := 1 } flushedRun := by
  refine .single (.callback .queueReady flushTrace afterHit _ ?_ flushTrace_path)
  intro e member
  simp only [flushTrace, List.mem_cons, List.not_mem_nil, or_false] at member
  rcases member with rfl | rfl | rfl
  · rfl
  · trivial
  · trivial

theorem flushedRun_conserved : UsageConserved oneHitCalls wasmSizes 7 flushedRun :=
  usage_conserved (fun _ => rfl) flushedRun_plain

end ThreescaleCache
