import Mathlib.Algebra.BigOperators.Group.List.Basic
import ThreescaleCache.CacheHitRules

namespace ThreescaleCache

/-! What the expansion of the hierarchy is to do with the metrics of a request. -/

/-- No metric is below itself: children have a smaller rank than their parent. -/
def Hierarchy.Acyclic (hierarchy : Hierarchy) : Prop :=
  ∃ rank : Str → Nat, ∀ parent children, ⟨parent, children⟩ ∈ hierarchy.entries →
    ∀ child ∈ children, rank child < rank parent

def Hierarchy.childrenOf (hierarchy : Hierarchy) (metric : Str) : List Str :=
  (hierarchy.lookup metric).getD []

def Metrics.count (metrics : Metrics) (metric : Str) : Nat := ((metrics.lookup metric).getD 0).toNat

/-- Every metric has come to its own hits and those of its children, and one
without a child among the metrics is as it was. -/
structure Expanded (hierarchy : Hierarchy) (metrics final : Metrics) : Prop where
  total : ∀ metric, final.count metric =
    metrics.count metric + ((hierarchy.childrenOf metric).map final.count).sum
  kept : ∀ metric, (∀ child ∈ hierarchy.childrenOf metric, final.lookup child = none) →
    final.lookup metric = metrics.lookup metric

/-- The expansion returns with the metrics expanded, in whatever order the two
maps are iterated. -/
def Expands (hierarchy : Hierarchy) (metrics : Metrics) : Prop :=
  ∀ (parents : Hierarchy) (request : Metrics), parents.entries.Perm hierarchy.entries →
    request.entries.Perm metrics.entries →
      ∃ final, addHierarchyToMetrics parents request = some final ∧ Expanded hierarchy metrics final

/-- The request has no metric that is the child of another. -/
def Childless (hierarchy : Hierarchy) (metrics : Metrics) : Prop :=
  ∀ parent children, ⟨parent, children⟩ ∈ hierarchy.entries → ∀ child ∈ children,
    metrics.lookup child = none

section
variable {hierarchy : Hierarchy} {metrics : Metrics} {children : List Str}
  {entries : List (Sigma fun _ : Str => UInt64)} {parents : List (Sigma fun _ : Str => List Str)}
  {cell cell' : RefCell Metrics}

/-- The inner loop gets through under its own borrow only where it finds no child. -/
theorem addChildren_some_iff (parent : Str) (borrowed : cell.shared ≠ 0) :
    addChildren parent children entries cell = some cell ↔ ∀ entry ∈ entries, entry.1 ∉ children := by
  induction entries with
  | nil => simp [addChildren]
  | cons entry rest ih =>
    obtain ⟨metric, hits⟩ := entry
    rw [List.forall_mem_cons, addChildren]
    by_cases child : metric ∈ children
    · simp only [RefCell.borrowMut, if_neg borrowed, child, not_true_eq_false, false_and,
        iff_false]
      rintro ⟨⟩
    · rw [if_neg child, ih]
      exact ⟨fun others => ⟨child, others⟩, And.right⟩

theorem addParents_some_iff :
    addParents parents cell = some cell ↔
      ∀ p ∈ parents, ∀ entry ∈ cell.value.entries, entry.1 ∉ p.2 := by
  induction parents with
  | nil => simp [addParents]
  | cons p rest ih =>
    obtain ⟨parent, children⟩ := p
    have borrowed : cell.borrow.shared ≠ 0 := Nat.succ_ne_zero _
    have back : cell.borrow.release = cell := rfl
    rw [List.forall_mem_cons, ← addChildren_some_iff parent borrowed, ← ih]
    constructor
    · intro run
      obtain ⟨inner, first, later⟩ := Option.bind_eq_some_iff.mp run
      cases addChildren_eq borrowed first
      exact ⟨first, later⟩
    · intro fact
      obtain ⟨first, later⟩ := fact
      exact Option.bind_eq_some_iff.mpr ⟨cell.borrow, first, later⟩

/-- The expansion returns only where it has nothing to do. -/
theorem addHierarchyToMetrics_some_iff :
    (∃ final, addHierarchyToMetrics hierarchy metrics = some final) ↔ Childless hierarchy metrics := by
  have gone : ∀ children : List Str, (∀ entry ∈ metrics.entries, entry.1 ∉ children) ↔
      ∀ child ∈ children, metrics.lookup child = none := by
    intro children
    simp only [AList.lookup_eq_none, AList.mem_keys, AList.keys]
    constructor
    · intro outside child listed member
      obtain ⟨entry, here, rfl⟩ := List.mem_map.mp member
      exact outside entry here listed
    · intro absent entry here listed
      exact absent entry.1 listed (List.mem_map_of_mem here)
  have loops : (∃ final, addHierarchyToMetrics hierarchy metrics = some final) ↔
      addParents hierarchy.entries (.new metrics) = some (.new metrics) := by
    constructor
    · intro fact
      obtain ⟨final, run⟩ := fact
      obtain ⟨cell, looped, _⟩ := Option.map_eq_some_iff.mp run
      rw [looped, addParents_eq looped]
    · intro looped
      exact ⟨metrics, Option.map_eq_some_iff.mpr ⟨_, looped, rfl⟩⟩
  rw [loops, addParents_some_iff]
  constructor
  · intro outside parent children member
    exact (gone children).mp (outside ⟨parent, children⟩ member)
  · intro childless p member
    exact (gone p.2).mpr (childless p.1 p.2 member)

theorem Childless.perm {parents : Hierarchy} {request : Metrics} (childless : Childless hierarchy metrics)
    (permH : parents.entries.Perm hierarchy.entries) (permM : request.entries.Perm metrics.entries) :
    Childless parents request := by
  intro parent children member child listed
  have absent := childless parent children (permH.mem_iff.mp member) child listed
  rw [AList.lookup_eq_none] at absent ⊢
  exact fun here => absent ((permM.map _).mem_iff.mp here)

/-- Metrics without a child are their own expansion. -/
theorem Childless.expanded (childless : Childless hierarchy metrics) : Expanded hierarchy metrics metrics where
  total := by
    intro metric
    have absent : ∀ child ∈ hierarchy.childrenOf metric, metrics.count child = 0 := by
      intro child listed
      unfold Hierarchy.childrenOf at listed
      cases here : hierarchy.lookup metric with
      | none =>
        rw [here] at listed
        cases listed
      | some children =>
        rw [here] at listed
        have gone := childless metric children (AList.mem_lookup_iff.mp here) child listed
        simp only [Metrics.count, gone, Option.getD_none]
        rfl
    rw [List.sum_eq_zero (by simpa using absent), Nat.add_zero]
  kept := fun _ _ => rfl

theorem Expanded.perm {final request : Metrics} (expanded : Expanded hierarchy request final)
    (perm : request.entries.Perm metrics.entries) : Expanded hierarchy metrics final := by
  have same : ∀ metric, request.lookup metric = metrics.lookup metric :=
    fun metric => AList.perm_lookup perm
  refine ⟨fun metric => ?_, fun metric none_ => ?_⟩
  · rw [expanded.total metric, Metrics.count, Metrics.count, same]
  · rw [expanded.kept metric none_, same]

/-- The expansion does its work exactly on the requests that leave it none: where
a child is found, its parent is changed under the borrow of the loop. -/
theorem expands_iff : Expands hierarchy metrics ↔ Childless hierarchy metrics := by
  constructor
  · intro expands
    obtain ⟨final, run, _⟩ := expands hierarchy metrics (.refl _) (.refl _)
    exact addHierarchyToMetrics_some_iff.mp ⟨final, run⟩
  · intro childless parents request permH permM
    obtain ⟨final, run⟩ := addHierarchyToMetrics_some_iff.mpr (childless.perm permH permM)
    refine ⟨final, run, ?_⟩
    rw [addHierarchyToMetrics_eq run]
    exact (childless.perm (.refl _) permM).expanded.perm permM

end

/-- One metric, and its only child. -/
def hitsOverSearch : Hierarchy := (∅ : Hierarchy).insert "hits".toList ["search".toList]

/-- A hit on the child. -/
theorem not_expands_search :
    hitsOverSearch.Acyclic ∧ ¬Expands hitsOverSearch ((∅ : Metrics).insert "search".toList 1) := by
  constructor
  · refine ⟨fun metric => if metric = "hits".toList then 1 else 0, fun parent children member child listed => ?_⟩
    cases List.mem_singleton.mp member
    cases List.mem_singleton.mp listed
    decide
  · intro expands
    obtain ⟨final, run, _⟩ := expands _ _ (.refl _) (.refl _)
    cases run

end ThreescaleCache
