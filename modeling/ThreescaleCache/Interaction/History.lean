import Mathlib.Data.List.Basic

namespace Interaction
universe u v

/-- A cell with the value `a` was changed by one update after the other: the
list tells which one was applied each time, and the value it left. -/
inductive Applied {σ : Type u} {ω : Type v} (upd : ω → σ → σ → Prop) : σ → List (ω × σ) → σ → Prop
  | start {a} : Applied upd a [] a
  | next {a l b w c} : Applied upd a l b → upd w b c → Applied upd a (l ++ [(w, c)]) c

namespace Applied
variable {σ : Type u} {ω : Type v} {upd upd' : ω → σ → σ → Prop} {a b : σ} {l : List (ω × σ)}

theorem mono (applied : Applied upd a l b) (weaker : ∀ w x y, upd w x y → upd' w x y) :
    Applied upd' a l b := by
  induction applied with
  | start => exact .start
  | next _ step ih => exact .next ih (weaker _ _ _ step)

theorem trans {c : σ} {l' : List (ω × σ)} (first : Applied upd a l b) (later : Applied upd b l' c) :
    Applied upd a (l ++ l') c := by
  induction later with
  | start => exact (List.append_nil l).symm ▸ first
  | next _ step ih => exact List.append_assoc .. ▸ Applied.next ih step

/-- What every update preserves, the history preserves. -/
theorem invariant (p : σ → Prop) (applied : Applied upd a l b) (start : p a)
    (preserved : ∀ w x y, upd w x y → p x → p y) : p b := by
  induction applied with
  | start => exact start
  | next _ step ih => exact preserved _ _ _ step ih

end Applied
end Interaction
