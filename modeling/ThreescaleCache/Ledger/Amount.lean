import Mathlib.Algebra.BigOperators.Group.List.Basic
import Mathlib.Data.List.AList

namespace Ledger
universe u v

variable {κ : Type u} [DecidableEq κ] {M : Type v} [AddCommMonoid M]

/-- What the lines of a book come to for the account `k`. -/
def amount (k : κ) (lines : List (κ × M)) : M :=
  (lines.map fun line => if line.1 = k then line.2 else 0).sum

@[simp] theorem amount_nil (k : κ) : amount k ([] : List (κ × M)) = 0 := rfl

theorem amount_cons (k : κ) (line : κ × M) (lines : List (κ × M)) :
    amount k (line :: lines) = (if line.1 = k then line.2 else 0) + amount k lines :=
  List.sum_cons

theorem amount_append (k : κ) (lines more : List (κ × M)) :
    amount k (lines ++ more) = amount k lines + amount k more := by
  simp only [amount, List.map_append, List.sum_append]

theorem amount_perm (k : κ) {lines lines' : List (κ × M)} (perm : lines.Perm lines') :
    amount k lines = amount k lines' :=
  (perm.map _).sum_eq

theorem amount_of_notMem {k : κ} {lines : List (κ × M)} (absent : ∀ line ∈ lines, line.1 ≠ k) :
    amount k lines = 0 := by
  induction lines with
  | nil => rfl
  | cons line rest ih =>
    rw [amount_cons, if_neg (absent line List.mem_cons_self),
      ih fun other member => absent other (List.mem_cons_of_mem line member), add_zero]

/-- In a book with one line for each account the amount is that of the line. -/
theorem amount_of_mem {k : κ} {m : M} {lines : List (κ × M)} (once : (lines.map Prod.fst).Nodup)
    (member : (k, m) ∈ lines) : amount k lines = m := by
  induction lines with
  | nil => cases member
  | cons line rest ih =>
    obtain ⟨fresh, onceRest⟩ := List.nodup_cons.mp once
    rw [amount_cons]
    rcases List.mem_cons.mp member with same | old
    · have others : ∀ other ∈ rest, other.1 ≠ k := by
        intro other here equal
        have known : k ∈ rest.map Prod.fst := List.mem_map.mpr ⟨other, here, equal⟩
        rw [← same] at fresh
        exact fresh known
      rw [← same, if_pos rfl, amount_of_notMem others, add_zero]
    · have different : line.1 ≠ k := by
        intro equal
        rw [equal] at fresh
        exact fresh (List.mem_map_of_mem old)
      rw [if_neg different, ih onceRest old, zero_add]

/-- The rule of balance: what was brought stays equal to what is held and
what is booked, if a step holds or books all that it brings. -/
theorem balance_carried {brought held booked new held' more : M} (before : brought = held + booked)
    (moved : held' + more = held + new) : brought + new = held' + (booked + more) :=
  calc brought + new = held + booked + new := by rw [before]
    _ = booked + (held + new) := by rw [add_comm held, add_assoc]
    _ = booked + (held' + more) := by rw [moved]
    _ = held' + (booked + more) := add_left_comm _ _ _

omit [DecidableEq κ] in
/-- Lists that are told apart by the keys they belong to are together without
repetition. -/
theorem nodup_flatMap_keyed {V α : Type v} {entries : List (Sigma fun _ : κ => V)} (keys : entries.NodupKeys)
    {f : (Sigma fun _ : κ => V) → List α} (tag : α → κ) (tagged : ∀ e, ∀ a ∈ f e, tag a = e.1)
    (once : ∀ e ∈ entries, (f e).Nodup) : (entries.flatMap f).Nodup := by
  refine List.nodup_flatMap.mpr ⟨once, (List.nodupKeys_iff_pairwise.mp keys).imp ?_⟩
  intro e e' different a here there
  exact different ((tagged e a here).symm.trans (tagged e' a there))

/-! The weight of a map: what its entries come to, each by itself. -/

section Weight
variable {V : Type v} {m : AList fun _ : κ => V}

def weight (f : κ → V → M) (m : AList fun _ : κ => V) : M :=
  (m.entries.map fun entry => f entry.1 entry.2).sum

omit [DecidableEq κ] in
@[simp] theorem weight_empty (f : κ → V → M) : weight f (∅ : AList fun _ : κ => V) = 0 := rfl

theorem weight_insert_absent (f : κ → V → M) {k : κ} (v : V) (absent : k ∉ m) :
    weight f (m.insert k v) = f k v + weight f m := by
  simp only [weight, AList.entries_insert_of_notMem absent, List.map_cons, List.sum_cons]

/-- An entry can be taken out of a map and put in front. -/
theorem entries_perm {k : κ} {v : V} (here : m.lookup k = some v) :
    m.entries.Perm (⟨k, v⟩ :: m.entries.kerase k) := by
  have reinserted : m.entries.Perm (m.insert k v).entries := by
    refine List.lookup_ext m.nodupKeys (m.insert k v).nodupKeys fun other x => ?_
    have same : (m.insert k v).lookup other = m.lookup other := by
      by_cases self : other = k
      · rw [self, AList.lookup_insert, here]
      · exact AList.lookup_insert_ne self
    exact (iff_of_eq (congrArg (x ∈ ·) same)).symm
  rwa [AList.entries_insert] at reinserted

/-- Replacing a value takes the weight of the old one away. -/
theorem weight_insert_present (f : κ → V → M) {k : κ} {old : V} (v : V) (here : m.lookup k = some old) :
    weight f (m.insert k v) + f k old = f k v + weight f m := by
  have total : weight f m = f k old +
      ((m.entries.kerase k).map fun entry : Sigma fun _ : κ => V => f entry.1 entry.2).sum := by
    have mapped := ((entries_perm here).map fun entry => f entry.1 entry.2).sum_eq
    rwa [List.map_cons, List.sum_cons] at mapped
  rw [total]
  simp only [weight, AList.entries_insert, List.map_cons, List.sum_cons]
  rw [add_assoc, add_comm _ (f k old)]

theorem length_insert_present {k : κ} {old : V} (v : V) (here : m.lookup k = some old) :
    (m.insert k v).entries.length = m.entries.length := by
  rw [(entries_perm here).length_eq, AList.entries_insert]
  rfl

theorem length_insert_absent {k : κ} (v : V) (absent : k ∉ m) :
    (m.insert k v).entries.length = m.entries.length + 1 := by
  rw [AList.entries_insert_of_notMem absent]
  rfl

end Weight
end Ledger
