import ThreescaleCache.Refusals

namespace ThreescaleCache
open Interaction

/-- The identifier presents one of the keys. -/
def Accepted (keys : List AppKey) (appId : AppIdentifier) : Prop :=
  ∃ id key, appId = .appId id (some key) ∧ key ∈ keys

/-- The ways to a cache hit by the key of the application: the header callback
comes to its arm at once or once the response came first, a woken waiter to its
own. -/
structure MeetsHit (f : CacheFilter) (app : Application) (cas : Nat) : Prop where
  hit : ∀ lib rounds, Prog.Path (f.lookupApplication lib rounds)
    [⟨.getSharedData f.state.cacheKey.asString, .ok (some (.application app), some cas)⟩] (f.cacheHitOrFail app cas)
  cameFirst : ∀ lib rounds t, Prog.Path (setCalloutLock rounds f) t (.done (.ok .responseCameFirst)) →
    Prog.Path (f.lookupApplication lib rounds)
      (⟨.getSharedData f.state.cacheKey.asString, .ok (none, none)⟩ ::
        ⟨.incrementMetric .cacheMisses 1, ()⟩ ::
          (t ++ [⟨.getSharedData f.state.cacheKey.asString, .ok (some (.application app), some cas)⟩]))
      (f.cacheHitOrFail app cas)
  woken : ∀ id key, f.state.cacheKey.appId = .appId id key →
    Prog.Path (CacheFilterRoot.resumeCacheHit f)
      [⟨.getSharedData f.state.cacheKey.asString, .ok (some (.application app), some cas)⟩]
      (CacheFilterRoot.waiterCacheHit f app cas)

theorem meetsHit (f : CacheFilter) (app : Application) (cas : Nat) : MeetsHit f app cas where
  hit := fun _ _ => .next .start
  cameFirst := fun _ _ _ cameFirst => .next (.next ((cameFirst.bind _).append (.next .start)))
  woken := by
    intro id key byAppId
    unfold CacheFilterRoot.resumeCacheHit
    rw [byAppId]
    exact .next .start

/-- On neither arm is the request let through. -/
structure HitsHeldBack (f : CacheFilter) (app : Application) (cas : Nat) (now : Option Duration) :
    Prop where
  headers : ∀ t q, Prog.Path (f.cacheHitOrFail app cas) t q → ClockAt now t →
    HeldBack t ∧ ∀ r, q = .done r → r.2 = .proceed → ∃ e ∈ t, refuses e
  waiter : ∀ t q, Prog.Path (CacheFilterRoot.waiterCacheHit f app cas) t q → ClockAt now t → HeldBack t

theorem holding_cacheHitOrFail {f : CacheFilter} {app : Application} {cas : Nat}
    {now : Option Duration} (deny : f.config.failureModeDeny = true)
    (stopped : ∀ time, now = some time → ¬PassesLocally f app time) :
    Follows (holding now) (fun refused r => r.2 = .proceed → refused = true)
      (f.cacheHitOrFail app cas) false := by
  refine follows_bind.mpr ((holding_cacheHit stopped).mono ?_)
  intro refused outcome fact
  obtain ⟨f₁, result⟩ := outcome
  obtain ⟨config, answered⟩ := fact
  cases result with
  | ok => exact fun _ => answered rfl
  | error e =>
    have deny' : f₁.config.failureModeDeny = true := by
      rw [show f₁.config = f.config from config, deny]
    dsimp only
    unfold CacheFilter.inRequestFailure
    simp only [CacheFilter.withRateLimitInfo, deny', if_true]
    exact ⟨trivial, fun _ _ _ paused => by cases paused⟩

theorem holding_waiterCacheHit {f : CacheFilter} {app : Application} {cas : Nat}
    {now : Option Duration} (deny : f.config.failureModeDeny = true)
    (stopped : ∀ time, now = some time → ¬PassesLocally f app time) :
    Follows (holding now) (fun _ _ => True) (CacheFilterRoot.waiterCacheHit f app cas) false := by
  refine follows_bind.mpr ((holding_cacheHit stopped).mono ?_)
  intro refused outcome fact
  obtain ⟨f₁, result⟩ := outcome
  obtain ⟨config, answered⟩ := fact
  cases result with
  | ok => exact ⟨answered rfl, fun _ _ _ => trivial⟩
  | error e =>
    refine follows_bind.mpr ((holding_requestProcessFailure ?_).mono fun _ _ _ => trivial)
    rw [show f₁.config = f.config from config, deny]

theorem hitsHeldBack_iff {f : CacheFilter} {app : Application} {cas : Nat} {now : Option Duration}
    (deny : f.config.failureModeDeny = true) :
    HitsHeldBack f app cas now ↔ ∀ time, now = some time → ¬PassesLocally f app time := by
  have headers := follows_holding_iff now (fun r : CacheFilter × Action => r.2 = .proceed)
    (f.cacheHitOrFail app cas)
  have waiter := follows_holding_iff now (fun _ : Unit => False)
    (CacheFilterRoot.waiterCacheHit f app cas)
  simp only [false_imp_iff, implies_true, and_true] at waiter
  constructor
  · intro held time same passes
    subst same
    exact released_cacheHit passes (follows_bind.mp (headers.mpr held.headers))
  · intro stopped
    exact ⟨headers.mp (holding_cacheHitOrFail deny stopped),
      waiter.mp (holding_waiterCacheHit deny stopped)⟩

/-- The keys of a cached application keep out a request that meets a cache hit
exactly if it presents one of them, or the usage limits keep it out anyway. -/
theorem appKeys_protect_iff {f : CacheFilter} {app : Application} {cas : Nat} {keys : List AppKey}
    {now : Option Duration} (deny : f.config.failureModeDeny = true)
    (_ : app.appKeys = some keys) (_ : keys ≠ []) :
    MeetsHit f app cas ∧ ((¬Accepted keys f.state.reqData.appId → HitsHeldBack f app cas now) ↔
      Accepted keys f.state.reqData.appId ∨ ∀ time, now = some time → ¬PassesLocally f app time) := by
  refine ⟨meetsHit f app cas, ?_⟩
  rw [hitsHeldBack_iff deny]
  exact or_iff_not_imp_left.symm

/-- The application `a` with one key. -/
def keyedApp : Application := { cachedWith ∅ with appKeys := some ["secret".toList] }

/-- A request for it that presents `key`. -/
def presenting (key : Option AppKey) : CacheFilter :=
  { hitContext 1 with state.reqData.appId := .appId ['a'] key }

theorem appKeys_protect_secret :
    MeetsHit (presenting (some "secret".toList)) keyedApp 1 ∧
      ((¬Accepted ["secret".toList] (presenting (some "secret".toList)).state.reqData.appId →
        HitsHeldBack (presenting (some "secret".toList)) keyedApp 1 (some (.fromSecs 1000000))) ↔
      Accepted ["secret".toList] (presenting (some "secret".toList)).state.reqData.appId ∨
        ∀ time, some (Duration.fromSecs 1000000) = some time →
          ¬PassesLocally (presenting (some "secret".toList)) keyedApp time) :=
  appKeys_protect_iff rfl rfl (by decide)

/-- The request is let through with a wrong key. -/
theorem not_appKeys_protect_wrong : ∃ f app cas keys now,
    CacheFilter.config f = { failureModeDeny := true, maxTries := 1 } ∧
    Application.appKeys app = some keys ∧ keys ≠ [] ∧
    f.state.reqData.appId = .appId ['a'] (some "wrong".toList) ∧
    ¬Accepted keys f.state.reqData.appId ∧ ¬HitsHeldBack f app cas now := by
  have refused : ¬Accepted ["secret".toList] (presenting (some "wrong".toList)).state.reqData.appId := by
    intro fact
    obtain ⟨id, key, same, member⟩ := fact
    cases same
    revert member
    decide
  refine ⟨presenting (some "wrong".toList), keyedApp, 1, ["secret".toList], some (.fromSecs 1000000),
    rfl, rfl, by decide, rfl, refused, fun held => ?_⟩
  exact (hitsHeldBack_iff rfl).mp held _ rfl ⟨rfl, Or.inr ⟨_, _, rfl⟩⟩

end ThreescaleCache
