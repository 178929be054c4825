import Mathlib.Data.List.Basic
import Mathlib.Data.List.Induction

-- Lists in which every element stands in a relation to the list of those before it:
-- what an append-only log guarantees when each append checks the log it extends.
def Each {α : Type} (R : List α → α → Prop) (log : List α) : Prop :=
  ∀ (i : Nat) (a : α), log[i]? = some a → R (log.take i) a

namespace Each

variable {α : Type} {R S : List α → α → Prop}

theorem nil : Each R [] := by
  intro i a h
  simp at h

theorem append_singleton (log : List α) (a : α) : Each R (log ++ [a]) ↔ Each R log ∧ R log a := by
  constructor
  · intro h
    refine ⟨?_, ?_⟩
    · intro i b hi
      obtain ⟨hlt, -⟩ := List.getElem?_eq_some_iff.mp hi
      have := h i b (by rw [List.getElem?_append_left hlt, hi])
      rwa [List.take_append_of_le_length (Nat.le_of_lt hlt)] at this
    · have := h log.length a (by simp)
      simpa using this
  · rintro ⟨hlog, ha⟩ i b hi
    rcases Nat.lt_or_ge i log.length with hlt | hge
    · rw [List.getElem?_append_left hlt] at hi
      rw [List.take_append_of_le_length (Nat.le_of_lt hlt)]
      exact hlog i b hi
    · obtain ⟨hle, -⟩ := List.getElem?_eq_some_iff.mp hi
      have hi' : i = log.length := by simp at hle; omega
      subst hi'
      have hb : a = b := by simpa using hi
      rw [← hb]
      simpa using ha

-- A relation between any two elements, the earlier one first.
theorem iff_pairwise {R : α → α → Prop} {log : List α} :
    Each (fun before a => ∀ b ∈ before, R b a) log ↔ log.Pairwise R := by
  induction log using List.reverseRecOn with
  | nil => exact ⟨fun _ => .nil, fun _ => nil⟩
  | append_singleton log a ih =>
      rw [append_singleton, ih, List.pairwise_append]
      constructor
      · rintro ⟨hlog, ha⟩
        exact ⟨hlog, List.pairwise_singleton _ _, fun b hb c hc => by rw [List.mem_singleton.mp hc]; exact ha b hb⟩
      · rintro ⟨hlog, -, ha⟩
        exact ⟨hlog, fun b hb => ha b hb a (List.mem_singleton_self a)⟩

theorem iff_forall {R : α → Prop} {log : List α} : Each (fun _ a => R a) log ↔ ∀ a ∈ log, R a := by
  constructor
  · intro h a ha
    obtain ⟨i, hi⟩ := List.mem_iff_getElem?.mp ha
    exact h i a hi
  · exact fun h i a hi => h a (List.mem_of_getElem? hi)

theorem mono (h : ∀ log a, R log a → S log a) {log : List α} (hlog : Each R log) : Each S log :=
  fun i a hi => h _ _ (hlog i a hi)

end Each

-- A position at which an element stands in a relation to the list of those before it.
def Occurs {α : Type} (R : List α → α → Prop) (log : List α) (i : Nat) : Prop :=
  ∃ a, log[i]? = some a ∧ R (log.take i) a

namespace Occurs

variable {α : Type} {R S : List α → α → Prop} {log : List α} {a : α} {i : Nat}

theorem nil : ¬Occurs R [] i := by
  rintro ⟨a, h, -⟩
  simp at h

theorem append_singleton : Occurs R (log ++ [a]) i ↔ Occurs R log i ∨ (i = log.length ∧ R log a) := by
  rcases Nat.lt_trichotomy i log.length with hlt | rfl | hgt
  · have htake : (log ++ [a]).take i = log.take i := List.take_append_of_le_length (Nat.le_of_lt hlt)
    simp only [Occurs, List.getElem?_append_left hlt, htake]
    exact ⟨Or.inl, fun h => h.elim id fun hr => absurd hr.1 (by omega)⟩
  · simp [Occurs]
  · have hnone : (log ++ [a])[i]? = none := List.getElem?_eq_none (by simp; omega)
    have hnone' : log[i]? = none := List.getElem?_eq_none (by omega)
    simp only [Occurs, hnone, hnone', reduceCtorEq, false_and, exists_false, false_or, false_iff, not_and]
    intro he
    omega

theorem exists_append_singleton : (∃ i, Occurs R (log ++ [a]) i) ↔ (∃ i, Occurs R log i) ∨ R log a := by
  simp only [append_singleton, exists_or, exists_eq_left]

theorem mono (h : ∀ before b, R before b → S before b) (hocc : Occurs R log i) : Occurs S log i := by
  obtain ⟨b, hb, hr⟩ := hocc
  exact ⟨b, hb, h _ b hr⟩

-- Two relations occur at the same positions where they agree at every element.
theorem congr_iff : (∀ i, Occurs R log i ↔ Occurs S log i) ↔ Each (fun before b => R before b ↔ S before b) log := by
  constructor
  · intro h i b hb
    have := h i
    simp only [Occurs, hb, Option.some.injEq, exists_eq_left'] at this
    exact this
  · intro h i
    constructor
    · rintro ⟨b, hb, hr⟩
      exact ⟨b, hb, (h i b hb).mp hr⟩
    · rintro ⟨b, hb, hr⟩
      exact ⟨b, hb, (h i b hb).mpr hr⟩

end Occurs
