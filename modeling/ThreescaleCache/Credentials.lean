import ThreescaleCache.CacheHitRules
import ThreescaleCache.Separators

namespace ThreescaleCache
open Interaction

/-! Which credential the authorize call of a request carries. -/

def userKeyHeader : Str := "x-3scale-user-key".toList
def appIdHeader : Str := "x-3scale-app-id".toList

/-- The credential that the headers present: the user_key, where there is one. -/
def Presents (headers : Str → Option Str) : Credential → Prop
  | .userKey key => headers userKeyHeader = some key
  | .appId id => headers userKeyHeader = none ∧ headers appIdHeader = some id
  | .appIdAndKey id key =>
    headers userKeyHeader = none ∧ headers appIdHeader = some (id ++ ':' :: key)

/-- After the calls `t`, `p` is about to send the authorize call of `asking`. -/
structure AboutToAsk (lib : ThirdParty) (p : HostProg (CacheFilter × Action)) (t : List HostEvent)
    (asking : CacheFilter) : Prop where
  built : (lib.buildApiCall (CacheFilter.authorizeCall asking.state.reqData)).isSome
  path : Prog.Path p t (asking.doAuthCall lib)

/-- A mapping of `userKey` was read: a value whose bytes are text, an app_id
or not. -/
def ReadMapping (userKey : UserKey) (t : List HostEvent) : Prop :=
  ∃ value cas appId, ⟨.getSharedData userKey, .ok (some value, cas)⟩ ∈ t ∧ value.text = some appId

theorem only_incrementStat (stat : Stat) :
    (incrementStat stat).Only (· = .incrementMetric stat 1) := ⟨rfl, fun _ => trivial⟩

theorem inward_incrementStat (stat : Stat) : (incrementStat stat).Only Inward :=
  ⟨trivial, fun _ => trivial⟩

theorem inward_inRequestFailure (f : CacheFilter) : f.inRequestFailure.Only Inward := by
  refine (only_inRequestFailure f).mono fun c failure => ?_
  cases failure <;> trivial

theorem inward_cacheHitOrFail (f : CacheFilter) (app : Application) (cas : Nat) :
    (f.cacheHitOrFail app cas).Only Inward := by
  refine Prog.only_bind ((only_handleCacheHit f app cas).mono fun _ => inward_hitCall) fun outcome => ?_
  obtain ⟨f', result⟩ := outcome
  cases result with
  | ok => trivial
  | error e => exact inward_inRequestFailure f'

theorem not_inward_dispatch (call : HttpCall) : ¬Inward (.dispatchHttpCall call) := id

theorem inward_tryLockCall {context : CacheFilter} {key : Str} {c : HostCall}
    (lockCall : TryLockCall context key c) : Inward c := by
  cases lockCall <;> trivial

variable {lib : ThirdParty} {rounds : Nat} {f asking : CacheFilter} {t : List HostEvent}

/-- A context with a call that can be built dispatches it and then pauses. -/
theorem doAuthCall_dispatches (built : (lib.buildApiCall (CacheFilter.authorizeCall f.state.reqData)).isSome) :
    ∃ call k, f.doAuthCall lib = .call (.dispatchHttpCall call) k ∧
      (∀ token, k (.ok token) = pure (f, .pause)) ∧ ∀ e, k (.error e) = f.inRequestFailure := by
  obtain ⟨request, built⟩ := Option.isSome_iff_exists.mp built
  unfold CacheFilter.doAuthCall
  rw [built]
  exact ⟨_, _, rfl, fun _ => rfl, fun _ => rfl⟩

theorem AboutToAsk.dispatches {p : HostProg (CacheFilter × Action)} (asks : AboutToAsk lib p t asking) :
    ∃ call k, Prog.Path p t (.call (.dispatchHttpCall call) k) ∧
      asking.doAuthCall lib = .call (.dispatchHttpCall call) k := by
  obtain ⟨call, k, same, _⟩ := doAuthCall_dispatches asks.built
  exact ⟨call, k, same ▸ asks.path, same⟩

theorem not_asks_inward {p : HostProg (CacheFilter × Action)} (only : p.Only Inward) :
    ¬AboutToAsk lib p t asking := by
  intro asks
  obtain ⟨call, k, path, _⟩ := asks.dispatches
  exact (only.rest path).1

/-- A sequence asks after its first part, if that sends nothing. -/
theorem AboutToAsk.past {α : Type} {p : HostProg α} {next : α → HostProg (CacheFilter × Action)}
    (only : p.Only Inward) (asks : AboutToAsk lib (p >>= next) t asking) :
    ∃ t₁ t₂ a, t = t₁ ++ t₂ ∧ Prog.Path p t₁ (.done a) ∧ AboutToAsk lib (next a) t₂ asking := by
  obtain ⟨call, k, path, same⟩ := asks.dispatches
  obtain ⟨t₁, t₂, a, split, first, later⟩ := Prog.path_bind_past only (not_inward_dispatch call) path
  exact ⟨t₁, t₂, a, split, first, asks.built, same ▸ later⟩

theorem doAuthCall_asks (asks : AboutToAsk lib (f.doAuthCall lib) t asking) : t = [] ∧ asking = f := by
  obtain ⟨call, k, path, same⟩ := asks.dispatches
  by_cases built : (lib.buildApiCall (CacheFilter.authorizeCall f.state.reqData)).isSome
  · obtain ⟨call', k', mine, onOk, onError⟩ := doAuthCall_dispatches built
    rw [mine] at path
    cases path with
    | start =>
      obtain ⟨call₁, k₁, same₁, onOk₁, _⟩ := doAuthCall_dispatches asks.built
      rw [same] at same₁
      cases same₁
      have result := (onOk₁ 0).symm.trans (onOk 0)
      cases result
      exact ⟨rfl, rfl⟩
    | @next _ _ r t' _ rest =>
      cases r with
      | ok token =>
        rw [onOk] at rest
        cases rest
      | error e =>
        rw [onError] at rest
        exact ((inward_inRequestFailure f).rest rest).1.elim
  · have failed : f.doAuthCall lib = f.inRequestFailure := by
      unfold CacheFilter.doAuthCall
      rw [Option.not_isSome_iff_eq_none.mp built]
    rw [failed] at asks
    exact absurd asks (not_asks_inward (inward_inRequestFailure f))

/-- Once the application is known to be looked up, the context asks for what
it has. -/
theorem lookupApplication_asks (asks : AboutToAsk lib (f.lookupApplication lib rounds) t asking) :
    asking = f := by
  have reads := (only_getApplicationFromCache f.state.cacheKey).mono fun _ => inward_sideCall
  obtain ⟨t₁, t₂, found, _, _, missed⟩ := asks.past reads
  cases found with
  | ok found => exact absurd missed (not_asks_inward (inward_cacheHitOrFail f found.1 found.2))
  | error e =>
    obtain ⟨_, t₃, _, _, _, counted⟩ := missed.past (inward_incrementStat .cacheMisses)
    have locks := (only_setCalloutLock rounds f).mono fun _ => inward_tryLockCall
    obtain ⟨_, t₄, status, _, _, locked⟩ := counted.past locks
    match status, locked with
    | .ok .lockAcquired, locked => exact (doAuthCall_asks locked).2
    | .ok .addedToWaitlist, locked => exact absurd locked (not_asks_inward trivial)
    | .ok .responseCameFirst, locked =>
      obtain ⟨_, t₅, found, _, _, again⟩ := locked.past reads
      cases found with
      | ok found => exact absurd again (not_asks_inward (inward_cacheHitOrFail f found.1 found.2))
      | error e => exact absurd again (not_asks_inward (inward_inRequestFailure f))
    | .error e, locked => exact absurd locked (not_asks_inward (inward_inRequestFailure f))

/-- The lock of a request by user_key has another key than its mapping. -/
theorem calloutLockKey_ne {cacheKey : CacheKey} {userKey : UserKey}
    (kind : cacheKey.appId = .userKey userKey) : calloutLockKey cacheKey ≠ userKey := by
  intro same
  have lengths := congrArg List.length same
  simp only [calloutLockKey, CacheKey.asString, kind, AppIdentifier.asRef, List.length_append,
    List.length_cons] at lengths
  omega

theorem readMapping_one {userKey : UserKey} {reply : Except Status (Option SharedValue × Option Nat)} :
    ReadMapping userKey [⟨.getSharedData userKey, reply⟩] ↔ ∃ appId, appIdRead reply = .ok appId := by
  simp only [appIdRead_eq_ok]
  constructor
  · rintro ⟨value, cas, appId, member, text⟩
    cases List.mem_singleton.mp member
    exact ⟨appId, value, cas, rfl, text⟩
  · rintro ⟨appId, value, cas, rfl, text⟩
    exact ⟨value, cas, appId, List.mem_cons_self, text⟩

/-- Nothing is read from it by calls of another kind. -/
theorem not_readMapping {userKey : UserKey} (P : HostCall → Prop) (calls : ∀ e ∈ t, P e.1)
    (other : ¬P (.getSharedData userKey)) : ¬ReadMapping userKey t := by
  rintro ⟨value, cas, appId, member, _⟩
  exact other (calls _ member)

theorem readMapping_append {userKey : UserKey} {t' : List HostEvent} :
    ReadMapping userKey (t ++ t') ↔ ReadMapping userKey t ∨ ReadMapping userKey t' := by
  simp only [ReadMapping, List.mem_append, or_and_right, exists_or]

theorem not_tryLockCall_read {key other : Str} (different : key ≠ other) {context : CacheFilter} :
    ¬TryLockCall context key (.getSharedData other) := by
  intro call
  cases call
  exact different rfl

/-- By user_key the context asks as it is, or as the mapping that it read lets
it go on. -/
theorem onUserKey_asks {userKey : UserKey} (kind : f.state.cacheKey.appId = .userKey userKey)
    (asks : AboutToAsk lib (f.onUserKey lib rounds userKey) t asking) :
    (asking = f ∧ ¬ReadMapping userKey t) ∨ ∃ appId, asking = f.mapped appId ∧ ReadMapping userKey t := by
  have reads := (only_getAppIdFromCache userKey).mono fun _ => inward_sideCall
  obtain ⟨t₁, t₂, found, rfl, first, missed⟩ := asks.past reads
  obtain ⟨reply, rfl, rfl⟩ := getAppIdFromCache_path first
  cases read : appIdRead reply with
  | ok appId =>
    rw [read] at missed
    exact Or.inr ⟨appId, lookupApplication_asks missed,
      readMapping_append.mpr (Or.inl (readMapping_one.mpr ⟨appId, read⟩))⟩
  | error e =>
    rw [read] at missed
    have unread : ¬ReadMapping userKey [⟨.getSharedData userKey, reply⟩] := by
      rw [readMapping_one, read]
      rintro ⟨_, ⟨⟩⟩
    obtain ⟨t₃, t₄, _, rfl, stat, counted⟩ := missed.past (inward_incrementStat .cacheMisses)
    have silent : ¬ReadMapping userKey t₃ :=
      not_readMapping (· = _) ((only_incrementStat .cacheMisses).path stat) (by simp)
    have locks := only_setCalloutLock rounds f
    obtain ⟨t₅, t₆, status, rfl, lock, locked⟩ := counted.past (locks.mono fun _ => inward_tryLockCall)
    have unlocked : ¬ReadMapping userKey t₅ :=
      not_readMapping _ (locks.path lock) (not_tryLockCall_read (calloutLockKey_ne kind))
    match status, locked with
    | .ok .lockAcquired, locked =>
      obtain ⟨rfl, same⟩ := doAuthCall_asks locked
      refine Or.inl ⟨same, ?_⟩
      simp only [readMapping_append, unread, silent, unlocked, false_or]
      rintro ⟨_, _, _, member, _⟩
      cases member
    | .ok .addedToWaitlist, locked => exact absurd locked (not_asks_inward trivial)
    | .ok .responseCameFirst, locked =>
      obtain ⟨t₇, t₈, found, rfl, second, again⟩ := locked.past reads
      obtain ⟨reply', rfl, rfl⟩ := getAppIdFromCache_path second
      cases read' : appIdRead reply' with
      | ok appId =>
        rw [read'] at again
        refine Or.inr ⟨appId, lookupApplication_asks again, ?_⟩
        simp only [readMapping_append, readMapping_one.mpr ⟨appId, read'⟩, true_or, or_true]
      | error e =>
        rw [read'] at again
        exact absurd again (not_asks_inward (inward_inRequestFailure f))
    | .error e, locked => exact absurd locked (not_asks_inward (inward_inRequestFailure f))

/-! The header of an application -/

/-- The header survives its parsing exactly if it has at most one colon. -/
theorem presents_appidFromStr_iff {headers : Str → Option Str} {s : Str}
    (noUserKey : headers userKeyHeader = none) (given : headers appIdHeader = some s) :
    Presents headers (CacheFilter.credential (.appidFromStr s)) ↔ s.count ':' ≤ 1 := by
  have colons := Separators.splitOn_length ':' s
  have joined : [':'].intercalate (s.splitOn ':') = s := List.intercalate_splitOn ':'
  unfold AppIdentifier.appidFromStr
  match split : s.splitOn ':' with
  | [] => exact absurd split (List.splitOn_ne_nil ':' s)
  | [id] =>
    rw [split] at colons joined
    have whole : id = s := by simpa using joined
    refine ⟨fun _ => ?_, fun _ => ⟨noUserKey, by rw [given, whole]⟩⟩
    simp only [List.length_cons, List.length_nil] at colons
    omega
  | [id, key] =>
    rw [split] at colons joined
    have whole : id ++ ':' :: key = s := by simpa using joined
    refine ⟨fun _ => ?_, fun _ => ⟨noUserKey, by rw [given, whole]⟩⟩
    simp only [List.length_cons, List.length_nil] at colons
    omega
  | id :: key :: more :: rest =>
    rw [split] at colons joined
    have many : ¬s.count ':' ≤ 1 := by
      simp only [List.length_cons] at colons
      omega
    refine ⟨fun presented => ?_, fun few => absurd few many⟩
    have same : s = id := Option.some.inj (given.symm.trans presented.2)
    have longer := congrArg List.length joined
    rw [List.intercalate_cons_cons] at longer
    simp only [List.length_append, List.length_cons, List.length_nil, same] at longer
    omega

theorem appidFromStr_form (s : Str) : ∃ id key, AppIdentifier.appidFromStr s = .appId id key := by
  unfold AppIdentifier.appidFromStr
  split
  · exact ⟨_, _, rfl⟩
  · exact ⟨_, _, rfl⟩
  · exact ⟨_, _, rfl⟩

theorem getRequestData_appId {headers : Str → Option Str} {data : ThreescaleData}
    (parsed : CacheFilter.getRequestData lib headers = .ok data) :
    (∃ userKey, headers userKeyHeader = some userKey ∧ data.appId = .userKey userKey) ∨
      ∃ s, headers userKeyHeader = none ∧ headers appIdHeader = some s ∧ data.appId = .appidFromStr s := by
  unfold CacheFilter.getRequestData at parsed
  dsimp only at parsed
  -- each split leaves the arm where the header or the parser gave something
  iterate 6
    split at parsed
    case h_2 => cases parsed
  split at parsed
  · cases parsed
  · split at parsed
    case h_2 => cases parsed
    split at parsed
    · rename_i userKey given
      rw [← Except.ok.inj parsed]
      exact Or.inl ⟨userKey, given, rfl⟩
    · rename_i s noUserKey given
      rw [← Except.ok.inj parsed]
      exact Or.inr ⟨s, noUserKey, given, rfl⟩
    · cases parsed

/-! The callback -/

/-- What keeps the presented credential: no mapping is read for a user_key,
and an application header has at most one colon. -/
structure Kept (headers : Str → Option Str) (t : List HostEvent) : Prop where
  unmapped : ∀ userKey, headers userKeyHeader = some userKey → ¬ReadMapping userKey t
  colons : ∀ s, headers userKeyHeader = none → headers appIdHeader = some s → s.count ':' ≤ 1

/-- The authorize call carries the presented credential exactly if no mapping
of the user_key was read, and the application header has at most one colon. -/
theorem credential_presented_iff (headers : Str → Option Str)
    (asks : AboutToAsk lib (f.onHttpRequestHeaders lib rounds headers) t asking) :
    Presents headers (CacheFilter.authorizeCall asking.state.reqData).application ↔ Kept headers t := by
  unfold CacheFilter.onHttpRequestHeaders at asks
  cases parsed : CacheFilter.getRequestData lib headers with
  | error e =>
    simp only [parsed] at asks
    have silent : Prog.Only Inward (do
        incrementStat .authMetadataErrors
        sendHttpResponse 401 none
        pure (f, Action.pause)) := ⟨trivial, fun _ => ⟨trivial, fun _ => trivial⟩⟩
    exact absurd asks (not_asks_inward silent)
  | ok data =>
    simp only [parsed] at asks
    rcases getRequestData_appId parsed with ⟨userKey, given, kind⟩ | ⟨s, noUserKey, given, kind⟩
    · simp only [kind] at asks
      have kept : Kept headers t ↔ ¬ReadMapping userKey t := by
        refine ⟨fun kept => kept.unmapped userKey given, fun unread => ⟨?_, ?_⟩⟩
        · intro other same
          cases Option.some.inj (given.symm.trans same)
          exact unread
        · intro _ none_
          rw [given] at none_
          cases none_
      rw [kept]
      rcases onUserKey_asks rfl asks with ⟨same, unread⟩ | ⟨appId, same, read⟩
      · refine iff_of_true ?_ unread
        subst same
        show Presents headers (CacheFilter.credential data.appId)
        rw [kind]
        exact given
      · refine iff_of_false ?_ fun unread => unread read
        subst same
        intro presented
        have none_ : headers userKeyHeader = none := presented.1
        rw [given] at none_
        cases none_
    · obtain ⟨id, key, form⟩ := appidFromStr_form s
      simp only [kind.trans form] at asks
      have same := lookupApplication_asks asks
      have kept : Kept headers t ↔ s.count ':' ≤ 1 := by
        refine ⟨fun kept => kept.colons s noUserKey given, fun few => ⟨?_, ?_⟩⟩
        · intro userKey some_
          rw [noUserKey] at some_
          cases some_
        · intro other _ same
          cases Option.some.inj (given.symm.trans same)
          exact few
      subst same
      rw [kept, ← presents_appidFromStr_iff noUserKey given, ← kind]
      rfl

/-! A request with an application key, on an empty cache. -/

/-- Other crates on the headers below, whatever the application. -/
def oneHitLib : ThirdParty where
  buildApiCall := fun call => some
    { method := "GET".toList
      uri := "/transactions/authrep.xml?".toList ++ match call.application with
        | .userKey key => "user_key=".toList ++ key
        | .appId id => "app_id=".toList ++ id
        | .appIdAndKey id key => "app_id=".toList ++ id ++ "&app_key=".toList ++ key
      headers := []
      body := none }
  parseUrl := fun url =>
    if url = "https://h/".toList then some ⟨"https".toList, ['h'], ['/'], none⟩ else none
  hasAuthority := fun _ => true
  parseUsages := fun usages =>
    if usages = "\x7b\"hits\":1\x7d".toList then some oneHit.metrics else none

def headersFor (appId : Str) (name : Str) : Option Str :=
  [("x-3scale-service-token".toList, ['t']), ("x-3scale-service-id".toList, ['s']),
    ("x-3scale-usages".toList, "\x7b\"hits\":1\x7d".toList), ("x-3scale-cluster-name".toList, ['c']),
    ("x-3scale-upstream-url".toList, "https://h/".toList), ("x-3scale-app-id".toList, appId)].lookup name

/-- The context of `headersFor appId` when it asks for application `a`. -/
def askingFor (appKey : Option AppKey) : CacheFilter :=
  let f := CacheFilterRoot.createHttpContext { id := 0, config := {} } 1
  { f with
    state.cacheKey := ⟨['s'], .appId ['a'] appKey⟩
    state.reqData := { oneHit with appId := .appId ['a'] appKey } }

/-- The calls of a miss that acquires the lock. -/
def missTrace : List HostEvent :=
  [⟨.getSharedData "s_a".toList, .ok (none, none)⟩, ⟨.incrementMetric .cacheMisses 1, ()⟩,
    ⟨.resolveSharedQueue ['0'], some 7⟩, ⟨.getSharedData "CL_s_a".toList, .ok (none, none)⟩,
    ⟨.setSharedData "CL_s_a".toList (some (.calloutLock ⟨0, []⟩)) (some 1), .ok ()⟩]

theorem askingFor_path :
    Prog.Path ((CacheFilterRoot.createHttpContext { id := 0, config := {} } 1).onHttpRequestHeaders
      oneHitLib 1 (headersFor "a:k".toList)) missTrace ((askingFor (some ['k'])).doAuthCall oneHitLib) :=
  .next (.next (.next (.next (.next .start))))

theorem credential_presented_key :
    Presents (headersFor "a:k".toList)
        (CacheFilter.authorizeCall (askingFor (some ['k'])).state.reqData).application ↔
      Kept (headersFor "a:k".toList) missTrace :=
  credential_presented_iff (headersFor "a:k".toList) ⟨rfl, askingFor_path⟩

/-- An application key with a colon is dropped from the call. -/
theorem not_presented_coloned :
    AboutToAsk oneHitLib ((CacheFilterRoot.createHttpContext { id := 0, config := {} } 1).onHttpRequestHeaders
        oneHitLib 1 (headersFor "a:k:1".toList)) missTrace (askingFor none) ∧
      ¬Presents (headersFor "a:k:1".toList)
        (CacheFilter.authorizeCall (askingFor none).state.reqData).application := by
  refine ⟨⟨rfl, .next (.next (.next (.next (.next .start))))⟩, ?_⟩
  intro presented
  exact absurd presented.2 (by decide)

end ThreescaleCache
