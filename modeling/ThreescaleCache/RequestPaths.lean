import ThreescaleCache.Separators
import ThreescaleCache.Upstream

namespace ThreescaleCache

/-! The `:path` of a call, from the path argument and the upstream's URL. -/

/-- A path argument `p` or `p?q`. -/
def pathArgument (p : Str) : Option Str → Str
  | none => p
  | some q => p ++ '?' :: q

/-- What a `:path` has before its first question mark. -/
def targetPath (target : Str) : Str := target.takeWhile (· ≠ '?')

/-- What it has after it, if there is one. -/
def targetQuery (target : Str) : Option Str :=
  match target.dropWhile (· ≠ '?') with
  | [] => none
  | _ :: query => some query

def queryParameters : Option Str → List Str
  | none => []
  | some query => query.splitOn '&'

/-- The target is the directory of the upstream with `p` mounted in it, and has
the parameters of the argument followed by those of the upstream. -/
structure Assembled (upstream : Upstream) (p : Str) (q : Option Str) (target : Str) : Prop where
  directory : ['/'] <:+ upstream.url.path
  path : targetPath target = upstream.url.path ++ p.dropWhile (· = '/')
  parameters : queryParameters (targetQuery target) = queryParameters q ++ queryParameters upstream.url.query

/-- What is dispatched for the path argument is assembled. -/
def AssemblesCall (upstream : Upstream) (p : Str) (q : Option Str) (method : Str)
    (headers : List (Str × Str)) (body : Option Str) : Prop :=
  ∃ call target, upstream.call (pathArgument p q) method headers body = dispatchHttpCall call ∧
    call.headers.lookup ":path".toList = some target ∧ Assembled upstream p q target

/-! Reading a target -/

theorem takeWhile_noMark {path : Str} (plain : '?' ∉ path) (rest : Str) :
    (path ++ rest).takeWhile (· ≠ '?') = path ++ rest.takeWhile (· ≠ '?') := by
  refine List.takeWhile_append_of_pos fun c member => ?_
  simp only [decide_eq_true_eq]
  rintro rfl
  exact plain member

theorem dropWhile_noMark {path : Str} (plain : '?' ∉ path) (rest : Str) :
    (path ++ rest).dropWhile (· ≠ '?') = rest.dropWhile (· ≠ '?') := by
  refine List.dropWhile_append_of_pos fun c member => ?_
  simp only [decide_eq_true_eq]
  rintro rfl
  exact plain member

theorem targetPath_argument {path : Str} (plain : '?' ∉ path) (q : Option Str) :
    targetPath (pathArgument path q) = path := by
  cases q with
  | none =>
    have whole := takeWhile_noMark plain []
    rwa [List.takeWhile_nil, List.append_nil] at whole
  | some query =>
    rw [targetPath, pathArgument, takeWhile_noMark plain, List.takeWhile_cons_of_neg (by decide),
      List.append_nil]

theorem targetQuery_argument {path : Str} (plain : '?' ∉ path) (q : Option Str) :
    targetQuery (pathArgument path q) = q := by
  unfold targetQuery
  cases q with
  | none =>
    have nothing := dropWhile_noMark plain []
    rw [List.append_nil, List.dropWhile_nil] at nothing
    rw [pathArgument, nothing]
  | some query =>
    rw [pathArgument, dropWhile_noMark plain, List.dropWhile_cons_of_neg (by decide)]

/-! The target of a call -/

/-- Of an argument only the path is trimmed. -/
theorem pathArgument_trimmed (p : Str) (q : Option Str) :
    (pathArgument p q).dropWhile (· = '/') = pathArgument (p.dropWhile (· = '/')) q := by
  cases q with
  | none => rfl
  | some query =>
    induction p with
    | nil => exact List.dropWhile_cons_of_neg (by decide)
    | cons c p ih =>
      by_cases slash : c = '/'
      · simp only [pathArgument, List.cons_append, List.dropWhile_cons, slash, decide_true, if_true]
        exact ih
      · simp only [pathArgument, List.cons_append, List.dropWhile_cons, slash, decide_false,
          Bool.false_eq_true, if_false]

/-- The two queries as they are joined: without a separator. -/
def joinedQuery : Option Str → Option Str → Option Str
  | q, none => q
  | none, some own => some own
  | some query, some own => some (query ++ own)

theorem callPath_eq {upstream : Upstream} {p : Str} (plain : '?' ∉ upstream.url.path) (noMark : '?' ∉ p)
    (q : Option Str) :
    upstream.callPath (pathArgument p q) =
      pathArgument (upstream.url.path ++ p.dropWhile (· = '/')) (joinedQuery q upstream.url.query) := by
  have trimmed : '?' ∉ p.dropWhile (· = '/') := fun member => noMark ((List.dropWhile_sublist _).mem member)
  have mounted : '?' ∉ upstream.url.path ++ p.dropWhile (· = '/') := by
    rw [List.mem_append, not_or]
    exact ⟨plain, trimmed⟩
  unfold Upstream.callPath
  rw [pathArgument_trimmed]
  cases upstream.url.query with
  | none =>
    cases q with
    | none => rfl
    | some query => simp only [pathArgument, joinedQuery, List.append_assoc]
  | some own =>
    cases q with
    | none =>
      simp only [pathArgument, joinedQuery, if_neg mounted, List.append_assoc, List.singleton_append]
    | some query =>
      have marked : '?' ∈ upstream.url.path ++ pathArgument (p.dropWhile (· = '/')) (some query) := by
        simp only [pathArgument, List.mem_append, List.mem_cons, true_or, or_true]
      dsimp only
      rw [if_pos marked]
      simp only [pathArgument, joinedQuery, List.append_assoc, List.cons_append]

theorem build_directory (url : Url) (name : Str) (timeout : Option UInt64) :
    ['/'] <:+ (Upstream.build url name timeout).url.path := by
  unfold Upstream.build
  by_cases closed : ['/'].isSuffixOf url.path = true
  · simp only [if_pos closed]
    exact List.isSuffixOf_iff_suffix.mp closed
  · simp only [if_neg closed]
    exact List.suffix_append _ _

theorem build_plain {url : Url} (plain : '?' ∉ url.path) (name : Str) (timeout : Option UInt64) :
    '?' ∉ (Upstream.build url name timeout).url.path := by
  unfold Upstream.build
  dsimp only
  split
  · exact plain
  · simp only [List.mem_append, List.mem_singleton, not_or]
    exact ⟨plain, by decide⟩

theorem build_query (url : Url) (name : Str) (timeout : Option UInt64) :
    (Upstream.build url name timeout).url.query = url.query := by
  unfold Upstream.build
  dsimp only
  split <;> rfl

theorem joinedQuery_parameters_iff (q own : Option Str) :
    queryParameters (joinedQuery q own) = queryParameters q ++ queryParameters own ↔ own = none ∨ q = none := by
  match q, own with
  | q, none => exact iff_of_true (List.append_nil _).symm (Or.inl rfl)
  | none, some own => exact iff_of_true rfl (Or.inr rfl)
  | some query, some own =>
    refine iff_of_false (Separators.splitOn_append_ne '&' query own) fun nothing => ?_
    rcases nothing with none_ | none_
    · cases none_
    · cases none_

/-- A call's path is assembled exactly if the upstream's URL or the argument has
no query: where both have one, nothing is put between them. The path of a parsed
URL has no question mark. -/
theorem call_assembled_iff {url : Url} {p : Str} (plain : '?' ∉ url.path) (noMark : '?' ∉ p) (q : Option Str)
    (name : Str) (timeout : Option UInt64) (method : Str) (headers : List (Str × Str)) (body : Option Str) :
    AssemblesCall (.build url name timeout) p q method headers body ↔ url.query = none ∨ q = none := by
  have mounted : '?' ∉ (Upstream.build url name timeout).url.path ++ p.dropWhile (· = '/') := by
    rw [List.mem_append, not_or]
    exact ⟨build_plain plain name timeout, fun member => noMark ((List.dropWhile_sublist _).mem member)⟩
  have target := callPath_eq (build_plain plain name timeout) noMark q
  rw [← joinedQuery_parameters_iff q url.query]
  constructor
  · rintro ⟨call, target', dispatched, found, assembled⟩
    cases dispatched
    cases found
    have parameters := assembled.parameters
    rwa [target, targetQuery_argument mounted, build_query] at parameters
  · intro parameters
    refine ⟨_, _, rfl, rfl, build_directory url name timeout, ?_, ?_⟩
    · rw [target, targetPath_argument mounted]
    · rwa [target, targetQuery_argument mounted, build_query]

def authorizePath : Str := "/transactions/authorize.xml".toList

/-- An upstream with a path that is not closed by a slash. -/
theorem call_assembled_directory :
    AssemblesCall (.build ⟨"https".toList, ['h'], "/api".toList, none⟩ ['c'] none) authorizePath
      (some "service_id=s&app_id=a".toList) "GET".toList [] none :=
  (call_assembled_iff (by decide) (by decide) _ _ _ _ _ _).mpr (Or.inl rfl)

/-- The `app_id` of an authorize call runs into the first parameter of the upstream. -/
theorem not_call_assembled_tenant :
    ¬AssemblesCall (.build ⟨"https".toList, ['h'], ['/'], some "tenant=t".toList⟩ ['c'] none) authorizePath
      (some "service_id=s&app_id=a".toList) "GET".toList [] none := by
  rintro ⟨call, target, dispatched, found, assembled⟩
  cases dispatched
  cases found
  exact absurd assembled.parameters (by decide)

end ThreescaleCache
