import ThreescaleCache.Filing

namespace ThreescaleCache
open Interaction

/-! What a waiter is given that its root has taken a message for. -/

/-- The request is released or answered among these calls. -/
def Disposes (t : List HostEvent) : Prop :=
  ⟨.resumeHttpRequest, ()⟩ ∈ t ∨ ∃ status body, (⟨.sendHttpResponse status body, ()⟩ : HostEvent) ∈ t

/-- The first of these calls finds an application under `key`. -/
def FetchesApplication (key : CacheKey) (t : List HostEvent) : Prop :=
  ∃ app cas rest, t = ⟨.getSharedData key.asString, .ok (some (.application app), some cas)⟩ :: rest

/-- These calls begin with what a waiting context looks up, and it is there: the
application under its key, or the mapping of its user_key and then the
application under the app_id. -/
def Fetches (context : CacheFilter) (t : List HostEvent) : Prop :=
  match context.state.cacheKey.appId with
  | .appId .. => FetchesApplication context.state.cacheKey t
  | .userKey userKey => ∃ value cas appId rest,
    t = ⟨.getSharedData userKey, .ok (some value, cas)⟩ :: rest ∧ value.text = some appId ∧
      FetchesApplication (context.state.cacheKey.setAppId (.appId appId none)) rest

/-- The calls for a woken waiter, up to the removal of its context. -/
inductive WakeCall : HostCall → Prop
  | hit {c : HostCall} (hit : HitCall c) : WakeCall c
  | giveUp {c : HostCall} (failure : FailureCall c) : WakeCall c

section
variable {context : CacheFilter} {app : Application} {cas : Nat} {t : List HostEvent}

theorem only_waiterCacheHit : (CacheFilterRoot.waiterCacheHit context app cas).Only WakeCall := by
  refine Prog.only_bind ((only_handleCacheHit context app cas).mono fun _ => .hit) fun outcome => ?_
  match outcome with
  | (_, .ok ()) => exact ⟨.hit .resume, fun _ => trivial⟩
  | (context, .error _) =>
    exact Prog.only_bind ((only_requestProcessFailure context).mono fun _ => .giveUp) fun _ => trivial

theorem wake_sideCall {c : HostCall} (side : SideCall c) : WakeCall c := .hit (.check (.filing (.side side)))

theorem only_lookupForWaiter : (CacheFilterRoot.lookupForWaiter context).Only WakeCall := by
  refine Prog.only_bind ((only_getApplicationFromCache _).mono fun _ => wake_sideCall) fun found => ?_
  cases found with
  | ok found => exact only_waiterCacheHit
  | error e => trivial

theorem only_resumeCacheHit : (CacheFilterRoot.resumeCacheHit context).Only WakeCall := by
  unfold CacheFilterRoot.resumeCacheHit
  split
  · refine Prog.only_bind ((only_getAppIdFromCache _).mono fun _ => wake_sideCall) fun found => ?_
    cases found with
    | ok appId => exact only_lookupForWaiter
    | error e => trivial
  · exact only_lookupForWaiter

theorem only_wakeWaiter (action : WaiterAction) :
    (CacheFilterRoot.wakeWaiter context action).Only WakeCall := by
  cases action with
  | handleFailure id =>
    exact Prog.only_bind ((only_requestProcessFailure context).mono fun _ => .giveUp) fun _ => trivial
  | handleCacheHit id => exact only_resumeCacheHit

theorem not_wake_remove (rootId contextId : Nat) : ¬WakeCall (.removeWaitingContext rootId contextId) := by
  intro wake
  cases wake with
  | giveUp failure => cases failure
  | hit hit =>
    cases hit with
    | check check =>
      cases check with
      | filing filing =>
        cases filing with
        | side side => cases side

/-- A request that is given up is released, after its answer if there is one. -/
theorem requestProcessFailure_releases {f : CacheFilter}
    (path : Prog.Path context.requestProcessFailure t (.done f)) : ⟨.resumeHttpRequest, ()⟩ ∈ t := by
  unfold CacheFilter.requestProcessFailure at path
  obtain ⟨t₁, t₂, _, rfl, _, resuming⟩ := Prog.path_bind_done path
  cases resuming with
  | next => exact List.mem_append_right _ List.mem_cons_self

/-- Once the application is there, the request is released, whatever becomes of
the cache hit flow. -/
theorem waiterCacheHit_releases (path : Prog.Path (CacheFilterRoot.waiterCacheHit context app cas) t (.done ())) :
    ⟨.resumeHttpRequest, ()⟩ ∈ t := by
  obtain ⟨t₁, t₂, outcome, rfl, _, later⟩ := Prog.path_bind_done path
  refine List.mem_append_right _ ?_
  match outcome with
  | (_, .ok ()) =>
    cases later with
    | next => exact List.mem_cons_self
  | (context, .error _) =>
    have failing : Prog.Path (context.requestProcessFailure >>= fun _ => pure ()) t₂ (.done ()) := later
    obtain ⟨t₃, t₄, _, rfl, failed, _⟩ := Prog.path_bind_done failing
    exact List.mem_append_left _ (requestProcessFailure_releases failed)

theorem not_disposes_read (key : Str) (r : HostCall.Reply (.getSharedData key)) :
    ¬Disposes [⟨.getSharedData key, r⟩] := by
  rintro (resumed | ⟨_, _, answered⟩)
  · cases List.mem_singleton.mp resumed
  · cases List.mem_singleton.mp answered

theorem lookupForWaiter_disposes (path : Prog.Path (CacheFilterRoot.lookupForWaiter context) t (.done ())) :
    Disposes t ↔ FetchesApplication context.state.cacheKey t := by
  obtain ⟨t₁, t₂, found, rfl, read, later⟩ := Prog.path_bind_done path
  obtain ⟨reply, rfl, found_iff⟩ := getApplicationFromCache_done read
  match found with
  | .ok (app, cas) =>
    cases (found_iff app cas).mp rfl
    exact iff_of_true (Or.inl (List.mem_cons_of_mem _ (waiterCacheHit_releases later))) ⟨app, cas, t₂, rfl⟩
  | .error e =>
    cases later
    refine iff_of_false (not_disposes_read _ reply) ?_
    rintro ⟨app, cas, rest, same⟩
    cases same
    cases (found_iff app cas).mpr rfl

theorem resumeCacheHit_disposes (path : Prog.Path (CacheFilterRoot.resumeCacheHit context) t (.done ())) :
    Disposes t ↔ Fetches context t := by
  unfold CacheFilterRoot.resumeCacheHit at path
  unfold Fetches
  cases by_ : context.state.cacheKey.appId with
  | appId =>
    rw [by_] at path
    exact lookupForWaiter_disposes path
  | userKey userKey =>
    rw [by_] at path
    obtain ⟨t₁, t₂, found, rfl, read, later⟩ := Prog.path_bind_done path
    obtain ⟨reply, rfl, is⟩ := getAppIdFromCache_path read
    cases found with
    | ok appId =>
      obtain ⟨value, cas, rfl, text⟩ := appIdRead_eq_ok.mp is.symm
      have looked := lookupForWaiter_disposes later
      have same : Disposes (⟨.getSharedData userKey, .ok (some value, cas)⟩ :: t₂) ↔ Disposes t₂ := by
        simp [Disposes]
      rw [List.singleton_append, same, looked]
      constructor
      · intro fetches
        exact ⟨value, cas, appId, t₂, rfl, text, fetches⟩
      · rintro ⟨_, _, _, _, same, text', fetches⟩
        cases same
        cases Option.some.inj (text.symm.trans text')
        exact fetches
    | error e =>
      cases later
      refine iff_of_false (not_disposes_read _ reply) ?_
      rintro ⟨value, cas, appId, rest, same, text, _⟩
      cases same
      cases is.trans (appIdRead_eq_ok.mpr ⟨value, cas, rfl, text⟩)

theorem wakeWaiter_disposes {action : WaiterAction}
    (path : Prog.Path (CacheFilterRoot.wakeWaiter context action) t (.done ())) :
    Disposes t ↔ (∃ id, action = .handleFailure id) ∨ Fetches context t := by
  cases action with
  | handleFailure id =>
    obtain ⟨t₁, t₂, _, rfl, failed, _⟩ := Prog.path_bind_done path
    have released := List.mem_append_left t₂ (requestProcessFailure_releases failed)
    exact iff_of_true (Or.inl released) (Or.inl ⟨id, rfl⟩)
  | handleCacheHit id =>
    rw [resumeCacheHit_disposes path, or_iff_right]
    rintro ⟨_, ⟨⟩⟩

end

/-- When the context of a woken waiter is about to be removed, its request has
been released or answered exactly if its callout has failed, or what the waiter
looked up was still there. -/
theorem woken_disposes_iff {root : CacheFilterRoot} {queueId : Nat} {action : WaiterAction} {context : CacheFilter}
    {t : List HostEvent} {k : Unit → HostProg Unit}
    (path : Prog.Path (root.onQueueReady queueId)
      (⟨.dequeueSharedQueue queueId, .ok (some (.waiterAction action))⟩ ::
        ⟨.getWaitingContext root.id action.contextId, some context⟩ ::
        ⟨.setEffectiveContext action.contextId, .ok ()⟩ :: t)
      (.call (.removeWaitingContext root.id action.contextId) k)) :
    Disposes t ↔ (∃ id, action = .handleFailure id) ∨ Fetches context t := by
  cases path with
  | next path =>
    cases path with
    | next path =>
      cases path with
      | next path =>
        have waking : Prog.Path (CacheFilterRoot.wakeWaiter context action >>= fun _ =>
          ask (.removeWaitingContext root.id action.contextId)) t _ := path
        obtain ⟨t₁, t₂, _, rfl, woken, removal⟩ :=
          Prog.path_bind_past (only_wakeWaiter action) (not_wake_remove _ _) waking
        cases removal with
        | start =>
          rw [List.append_nil]
          exact wakeWaiter_disposes woken
        | next removed => cases removed

/-! A waiter without tries, sent into the cache hit flow. -/

def wakingRoot : CacheFilterRoot := ⟨0, {}⟩

/-- The events up to the point where the waiter is awake. -/
def awakening : List HostEvent :=
  [⟨.dequeueSharedQueue 7, .ok (some (.waiterAction (.handleCacheHit 1)))⟩,
    ⟨.getWaitingContext 0 1, some (hitContext 0)⟩, ⟨.setEffectiveContext 1, .ok ()⟩]

def foundTrace : List HostEvent :=
  [⟨.getSharedData hitKey, .ok (some (.application (cachedWith ∅)), some 3)⟩,
    ⟨.incrementMetric .cacheHits 1, ()⟩, ⟨.resolveSharedQueue queueName, some 7⟩,
    ⟨.getCurrentTime, some (.fromSecs 1000000)⟩, ⟨.resumeHttpRequest, ()⟩, ⟨.resumeHttpRequest, ()⟩]

theorem foundTrace_path : ∃ k, Prog.Path (wakingRoot.onQueueReady 7) (awakening ++ foundTrace)
    (.call (.removeWaitingContext 0 1) k) :=
  ⟨_, .next (.next (.next (.next (.next (.next (.next (.next (.next .start))))))))⟩

theorem disposes_found : Disposes foundTrace := by
  obtain ⟨k, path⟩ := foundTrace_path
  exact (woken_disposes_iff path).mpr
    (Or.inr ⟨cachedWith ∅, 3, _, rfl⟩)

/-- The singleton has deleted the application meanwhile: the context is removed,
and the request stays paused. -/
theorem not_disposes_deleted :
    (∃ k, Prog.Path (wakingRoot.onQueueReady 7) (awakening ++ [⟨.getSharedData hitKey, .ok (none, some 4)⟩])
        (.call (.removeWaitingContext 0 1) k)) ∧
      ¬Disposes [⟨.getSharedData hitKey, .ok (none, some 4)⟩] :=
  ⟨⟨_, .next (.next (.next (.next .start)))⟩, not_disposes_read hitKey (.ok (none, some 4))⟩

end ThreescaleCache
