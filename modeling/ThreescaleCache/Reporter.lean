import ThreescaleCache.Conservation
import ThreescaleCache.Interaction.History

namespace ThreescaleCache
open Interaction

/-! What the singleton is for: it holds usage until it is reported, and keeps
those applications fresh that are in use. -/

/-- A refresh of an application that is asked for, with the reply to its call. There
is none where the request for it cannot be built: then no call goes out. -/
structure AskedRefresh where
  key : Str
  cacheKey : CacheKey
  serviceToken : ServiceToken
  reply : Option (Except Status Nat)

/-- The usage that is not reported yet, the applications in use, and those that
a refresh is due for, by the token of its call. -/
structure Reporter where
  held : Account → UInt64
  known : Str → Option (CacheKey × ServiceToken)
  asked : Nat → Option CacheKey

/-- A report, with the reply to its call. -/
abbrev SentReport := BuiltReport × Except Status Nat

inductive Deed where
  | use (data : ThreescaleData)
  | flush (reports : List SentReport) (refreshes : List AskedRefresh)
  | answered (token : Nat)
  | refused (token : Nat) (cacheKey : CacheKey)

def ThreescaleData.usedKey (data : ThreescaleData) : CacheKey := { serviceId := data.serviceId, appId := data.appId }

namespace Reporter

def start : Reporter := ⟨fun _ => 0, fun _ => none, fun _ => none⟩

/-- The application is known as it was first used. -/
def use (r : Reporter) (data : ThreescaleData) : Reporter where
  held := fun a => r.held a + hits data a
  known := match r.known data.usedKey.asString with
    | some _ => r.known
    | none => Function.update r.known data.usedKey.asString (some (data.usedKey, data.serviceToken))
  asked := r.asked

/-- A call that went out is due. -/
def noteAsked (asked : Nat → Option CacheKey) (refresh : AskedRefresh) : Nat → Option CacheKey :=
  match refresh.reply with
  | some (.ok token) => Function.update asked token (some refresh.cacheKey)
  | _ => asked

def flush (r : Reporter) (refreshes : List AskedRefresh) : Reporter where
  held := fun _ => 0
  known := r.known
  asked := refreshes.foldl noteAsked r.asked

def answer (r : Reporter) (token : Nat) : Reporter := { r with asked := Function.update r.asked token none }

def forget (r : Reporter) (cacheKey : CacheKey) : Reporter :=
  { r with known := Function.update r.known cacheKey.asString none }

end Reporter

/-- The reports carry all that is held, with one line for each account. -/
structure ReportsHeld (calls : ApiCalls) (held : Account → UInt64) (reports : List SentReport) : Prop where
  amounts : ∀ a, Ledger.amount a (reports.flatMap fun sent => sent.1.lines) = held a
  once : ((reports.flatMap fun sent => sent.1.lines).map Prod.fst).Nodup
  built : ∀ sent ∈ reports, (calls.buildReport sent.1.2.call).isSome

/-- A refresh of each application in use is asked for once, and of no other. The
call for it is made exactly if its request can be built. -/
structure RefreshesKnown (calls : ApiCalls) (known : Str → Option (CacheKey × ServiceToken))
    (refreshes : List AskedRefresh) : Prop where
  all : ∀ key cacheKey serviceToken, known key = some (cacheKey, serviceToken) ↔
    ∃ reply, ⟨key, cacheKey, serviceToken, reply⟩ ∈ refreshes
  once : (refreshes.map AskedRefresh.key).Nodup
  replied : ∀ refresh ∈ refreshes, refresh.reply.isSome =
    (calls.buildAuth (authCall refresh.cacheKey refresh.serviceToken)).isSome

/-- A refresh is refused only if it is due. -/
inductive Reporter.Does (calls : ApiCalls) : Deed → Reporter → Reporter → Prop
  | use (r : Reporter) (data : ThreescaleData) : Does calls (.use data) r (r.use data)
  | flush (r : Reporter) (reports : List SentReport) (refreshes : List AskedRefresh)
      (reported : ReportsHeld calls r.held reports) (refreshed : RefreshesKnown calls r.known refreshes) :
      Does calls (.flush reports refreshes) r (r.flush refreshes)
  | answered (r : Reporter) (token : Nat) : Does calls (.answered token) r (r.answer token)
  | refused (r : Reporter) (token : Nat) (cacheKey : CacheKey) (due : r.asked token = some cacheKey) :
      Does calls (.refused token cacheKey) r ((r.forget cacheKey).answer token)

/-! The applications in use -/

/-- The deed makes the application known. -/
def Deed.Uses (key : Str) (deed : Deed) : Prop := ∃ data, deed = .use data ∧ data.usedKey.asString = key

def Deed.Refuses (key : Str) (deed : Deed) : Prop :=
  ∃ token cacheKey, deed = .refused token cacheKey ∧ cacheKey.asString = key

/-- The application was used, and not refused since. -/
def InUse (key : Str) (deeds : List Deed) : Prop :=
  ∃ before deed after, deeds = before ++ deed :: after ∧ deed.Uses key ∧ ∀ later ∈ after, ¬later.Refuses key

/-- A list that ends with `last` is split before its end, or there. -/
theorem concat_split {α : Type} {l before after : List α} {last a : α} (split : l ++ [last] = before ++ a :: after) :
    (l = before ∧ last = a ∧ after = []) ∨ ∃ rest, after = rest ++ [last] ∧ l = before ++ a :: rest := by
  rcases List.eq_nil_or_concat after with rfl | ⟨rest, final, rfl⟩
  · obtain ⟨same, ends⟩ := List.append_inj' split rfl
    exact Or.inl ⟨same, List.singleton_inj.mp ends, rfl⟩
  · rw [List.concat_eq_append] at split ⊢
    have shorter : l ++ [last] = (before ++ a :: rest) ++ [final] := by
      rw [split, List.append_assoc, List.cons_append]
    obtain ⟨same, ends⟩ := List.append_inj' shorter rfl
    cases List.singleton_inj.mp ends
    exact Or.inr ⟨rest, rfl, same⟩

theorem not_inUse_nil (key : Str) : ¬InUse key [] := by
  rintro ⟨before, deed, after, split, _⟩
  exact List.append_ne_nil_of_right_ne_nil before (List.cons_ne_nil _ _) split.symm

theorem inUse_append {key : Str} {deeds : List Deed} {last : Deed} :
    InUse key (deeds ++ [last]) ↔ last.Uses key ∨ (InUse key deeds ∧ ¬last.Refuses key) := by
  constructor
  · rintro ⟨before, deed, after, split, uses, spared⟩
    rcases concat_split split with ⟨_, rfl, _⟩ | ⟨rest, rfl, same⟩
    · exact Or.inl uses
    · refine Or.inr ⟨⟨before, deed, rest, same, uses, fun later member => ?_⟩, ?_⟩
      · exact spared later (List.mem_append_left _ member)
      · exact spared _ (List.mem_append_right _ (List.mem_singleton_self _))
  · rintro (uses | ⟨⟨before, deed, after, rfl, uses, spared⟩, kept⟩)
    · exact ⟨deeds, last, [], rfl, uses, by rintro _ ⟨⟩⟩
    · refine ⟨before, deed, after ++ [last], by rw [List.append_assoc, List.cons_append], uses, ?_⟩
      intro later member
      rcases List.mem_append.mp member with early | final
      · exact spared later early
      · cases List.mem_singleton.mp final
        exact kept

namespace Reporter
variable {calls : ApiCalls} {r r' : Reporter} {deed : Deed} {key : Str}

theorem use_known (r : Reporter) (data : ThreescaleData) (key : Str) :
    ((r.use data).known key).isSome ↔ data.usedKey.asString = key ∨ (r.known key).isSome := by
  cases before : r.known data.usedKey.asString with
  | some _ =>
    simp only [use, before]
    constructor
    · exact Or.inr
    · rintro (rfl | known)
      · rw [before]
        rfl
      · exact known
  | none =>
    simp only [use, before]
    by_cases same : key = data.usedKey.asString
    · subst same
      rw [Function.update_self]
      exact ⟨fun _ => Or.inl rfl, fun _ => rfl⟩
    · rw [Function.update_of_ne same]
      exact ⟨Or.inr, fun known => known.resolve_left (Ne.symm same)⟩

/-- A deed makes an application known, or keeps it known, unless it is refused. -/
theorem Does.known (does : Does calls deed r r') :
    (r'.known key).isSome ↔ deed.Uses key ∨ ((r.known key).isSome ∧ ¬deed.Refuses key) := by
  cases does with
  | use _ data =>
    have spares : ¬(Deed.use data).Refuses key := by rintro ⟨_, _, ⟨⟩, _⟩
    have uses : (Deed.use data).Uses key ↔ data.usedKey.asString = key :=
      ⟨by rintro ⟨_, ⟨⟩, same⟩; exact same, fun same => ⟨data, rfl, same⟩⟩
    rw [use_known, uses, and_iff_left spares]
  | flush _ reports refreshes =>
    have spares : ¬(Deed.flush reports refreshes).Refuses key := by rintro ⟨_, _, ⟨⟩, _⟩
    have unused : ¬(Deed.flush reports refreshes).Uses key := by rintro ⟨_, ⟨⟩, _⟩
    exact ⟨fun known => Or.inr ⟨known, spares⟩, fun known => (known.resolve_left unused).1⟩
  | answered _ token =>
    have spares : ¬(Deed.answered token).Refuses key := by rintro ⟨_, _, ⟨⟩, _⟩
    have unused : ¬(Deed.answered token).Uses key := by rintro ⟨_, ⟨⟩, _⟩
    exact ⟨fun known => Or.inr ⟨known, spares⟩, fun known => (known.resolve_left unused).1⟩
  | refused _ token cacheKey due =>
    have unused : ¬(Deed.refused token cacheKey).Uses key := by rintro ⟨_, ⟨⟩, _⟩
    have refuses : (Deed.refused token cacheKey).Refuses key ↔ cacheKey.asString = key :=
      ⟨by rintro ⟨_, _, ⟨⟩, same⟩; exact same, fun same => ⟨token, cacheKey, rfl, same⟩⟩
    rw [or_iff_right unused, refuses]
    show (Function.update r.known cacheKey.asString none key).isSome ↔ _
    by_cases same : key = cacheKey.asString
    · subst same
      rw [Function.update_self]
      exact ⟨by rintro ⟨⟩, fun known => absurd rfl known.2⟩
    · rw [Function.update_of_ne same]
      exact (and_iff_left (Ne.symm same)).symm

/-- The applications that are known are those in use. -/
theorem known_iff_inUse {deeds : List (Deed × Reporter)} (applied : Applied (Does calls) start deeds r) :
    (r.known key).isSome ↔ InUse key (deeds.map Prod.fst) := by
  induction applied with
  | start => exact ⟨by rintro ⟨⟩, fun used => absurd used (not_inUse_nil key)⟩
  | next applied does ih =>
    rw [does.known, ih, List.map_append]
    exact inUse_append.symm

/-- Each flush asks for exactly the applications in use. -/
theorem refreshes_inUse {deeds : List (Deed × Reporter)} (applied : Applied (Does calls) start deeds r)
    {before after : List Deed} {reports : List SentReport} {refreshes : List AskedRefresh}
    (split : deeds.map Prod.fst = before ++ .flush reports refreshes :: after) :
    (refreshes.map AskedRefresh.key).Nodup ∧ ∀ key, key ∈ refreshes.map AskedRefresh.key ↔ InUse key before := by
  induction applied generalizing after with
  | start => exact absurd split.symm (List.append_ne_nil_of_right_ne_nil _ (List.cons_ne_nil _ _))
  | @next _ _ deed _ applied does ih =>
    rw [List.map_append] at split
    rcases concat_split split with ⟨rfl, rfl, _⟩ | ⟨rest, _, same⟩
    · cases does with
      | flush _ _ _ _ refreshed =>
        refine ⟨refreshed.once, fun key => ?_⟩
        rw [← known_iff_inUse applied]
        constructor
        · intro member
          obtain ⟨⟨_, cacheKey, serviceToken, reply⟩, here, rfl⟩ := List.mem_map.mp member
          rw [(refreshed.all _ cacheKey serviceToken).mpr ⟨reply, here⟩]
          rfl
        · intro known
          obtain ⟨⟨cacheKey, serviceToken⟩, known⟩ := Option.isSome_iff_exists.mp known
          obtain ⟨reply, here⟩ := (refreshed.all key cacheKey serviceToken).mp known
          exact List.mem_map.mpr ⟨_, here, rfl⟩
    · exact ih same

end Reporter
end ThreescaleCache
