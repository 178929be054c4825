import Mathlib.Data.List.Count
import Mathlib.Data.List.Perm.Basic
import Mathlib.Data.List.Dedup

-- Two filters of one list, compared by what only one of them keeps.
section

variable {α β : Type} (p q : α → Bool)

theorem countP_split (items : List α) :
    items.countP p = items.countP (fun a => p a && q a) + items.countP (fun a => p a && !q a) := by
  induction items with
  | nil => rfl
  | cons a rest ih => cases hp : p a <;> cases hq : q a <;> simp [hp, hq, ih] <;> omega

theorem countP_eq_iff (items : List α) :
    items.countP p = items.countP q ↔
      items.countP (fun a => p a && !q a) = items.countP (fun a => q a && !p a) := by
  have hp := countP_split p q items
  have hq := countP_split q p items
  have hboth : items.countP (fun a => q a && p a) = items.countP (fun a => p a && q a) := by
    simp only [Bool.and_comm]
  omega

variable [DecidableEq β]

theorem count_map_filter (f : α → β) (items : List α) (b : β) :
    ((items.filter p).map f).count b = items.countP fun a => p a && decide (f a = b) := by
  rw [List.count, List.countP_map, List.countP_filter]
  congr 1
  funext a
  rw [Bool.and_comm]
  rfl

-- The images agree up to order when each value is missed as often as it is mistaken.
theorem perm_map_filter_iff (f : α → β) (items : List α) :
    ((items.filter p).map f).Perm ((items.filter q).map f) ↔ ∀ b,
      items.countP (fun a => p a && !q a && decide (f a = b)) =
        items.countP (fun a => q a && !p a && decide (f a = b)) := by
  rw [List.perm_iff_count]
  apply forall_congr'
  intro b
  rw [count_map_filter, count_map_filter, countP_eq_iff]
  have hdrop (p q : α → Bool) :
      items.countP (fun a => p a && decide (f a = b) && !(q a && decide (f a = b))) =
        items.countP (fun a => p a && !q a && decide (f a = b)) := by
    apply List.countP_congr
    intro a _
    cases p a <;> cases q a <;> cases decide (f a = b) <;> simp
  rw [hdrop p q, hdrop q p]

end
