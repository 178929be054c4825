import Mathlib.Data.List.Basic

-- A list as a heap: objects that are shared by reference are named by their place.
namespace Heap

variable {α : Type} {cells : List α} {i j : Nat} {change : α → α}

theorem getElem?_modify_iff {after : α} :
    (cells.modify i change)[j]? = some after ↔
      ∃ before, cells[j]? = some before ∧ after = if i = j then change before else before := by
  rw [List.getElem?_modify]
  by_cases hij : i = j
  · simp only [hij, if_true]
    cases cells[j]? <;> simp [eq_comm]
  · simp only [hij, if_false]
    cases cells[j]? <;> simp [eq_comm]

theorem modify_self {before : α} (h : cells[i]? = some before) : (cells.modify i change)[i]? = some (change before) :=
  getElem?_modify_iff.mpr ⟨before, h, (if_pos rfl).symm⟩

theorem modify_other {before : α} (h : cells[j]? = some before) (hij : i ≠ j) :
    (cells.modify i change)[j]? = some before :=
  getElem?_modify_iff.mpr ⟨before, h, (if_neg hij).symm⟩

theorem lt_of_getElem? {cell : α} (h : cells[i]? = some cell) : i < cells.length :=
  (List.getElem?_eq_some_iff.mp h).1

theorem getElem?_append_iff {cell found : α} :
    (cells ++ [cell])[i]? = some found ↔ cells[i]? = some found ∨ (i = cells.length ∧ found = cell) := by
  by_cases hi : i < cells.length
  · rw [List.getElem?_append_left hi]
    constructor
    · exact Or.inl
    · rintro (h | ⟨h, -⟩)
      · exact h
      · omega
  · have hnone : cells[i]? = none := List.getElem?_eq_none (by omega)
    rw [List.getElem?_append_right (by omega), hnone]
    by_cases heq : i = cells.length
    · simp [heq, eq_comm]
    · have hpos : i - cells.length ≠ 0 := by omega
      obtain ⟨n, hn⟩ := Nat.exists_eq_succ_of_ne_zero hpos
      simp [hn, heq]

end Heap
