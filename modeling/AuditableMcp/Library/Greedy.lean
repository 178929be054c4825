import Mathlib.Data.Finset.Max
import Mathlib.Order.Bounds.Basic

-- Values given out to bounds, each bound taking at most one value below it. Served in
-- ascending order, bounds that take the smallest value there is leave the fewest behind.
namespace Greedy

variable {α : Type} [LinearOrder α]

def take (left : Finset α) (bound : α) : Finset α :=
  if h : (left.filter (· < bound)).Nonempty then left.erase ((left.filter (· < bound)).min' h) else left

def leftOver (values : Finset α) (bounds : List α) : Finset α := bounds.foldl take values

-- A way to give distinct values to bounds, by position.
structure Assigns (values : Finset α) (bounds : List α) (given : Nat → Option α) : Prop where
  below : ∀ i v, given i = some v → v ∈ values ∧ ∃ bound, bounds[i]? = some bound ∧ v < bound
  distinct : ∀ i j v, given i = some v → given j = some v → i = j

open Classical in
noncomputable def unassigned (values : Finset α) (given : Nat → Option α) : Finset α :=
  values.filter fun v => ∀ i, given i ≠ some v

variable {values left : Finset α} {bound v : α} {bounds : List α} {given : Nat → Option α}

omit [LinearOrder α] in
theorem mem_unassigned : v ∈ unassigned values given ↔ v ∈ values ∧ ∀ i, given i ≠ some v := by
  simp [unassigned]

theorem take_of_least (hmem : v ∈ left) (hlt : v < bound) (hleast : ∀ w ∈ left, v ≤ w) : take left bound = left.erase v := by
  have hfilter : v ∈ left.filter (· < bound) := Finset.mem_filter.mpr ⟨hmem, hlt⟩
  have hne : (left.filter (· < bound)).Nonempty := ⟨v, hfilter⟩
  have hmin : (left.filter (· < bound)).min' hne = v := by
    apply le_antisymm
    · exact Finset.min'_le _ v hfilter
    · exact hleast _ (Finset.mem_filter.mp (Finset.min'_mem _ hne)).1
  rw [take, dif_pos hne, hmin]

theorem take_of_le (h : ∀ w ∈ left, bound ≤ w) : take left bound = left := by
  have hempty : ¬(left.filter (· < bound)).Nonempty := by
    rintro ⟨w, hw⟩
    obtain ⟨hmem, hlt⟩ := Finset.mem_filter.mp hw
    exact absurd hlt (not_lt.mpr (h w hmem))
  rw [take, dif_neg hempty]

-- Either nothing lies below a bound, or the least of all values does.
theorem least_or_none (values : Finset α) (bound : α) :
    (∀ w ∈ values, bound ≤ w) ∨ ∃ v ∈ values, v < bound ∧ ∀ w ∈ values, v ≤ w := by
  by_cases hne : (values.filter (· < bound)).Nonempty
  · right
    obtain ⟨hmem, hlt⟩ := Finset.mem_filter.mp (Finset.min'_mem _ hne)
    refine ⟨_, hmem, hlt, fun w hw => ?_⟩
    by_cases hbelow : w < bound
    · exact Finset.min'_le _ w (Finset.mem_filter.mpr ⟨hw, hbelow⟩)
    · exact (hlt.trans_le (not_lt.mp hbelow)).le
  · left
    intro w hw
    by_contra hbelow
    exact hne ⟨w, Finset.mem_filter.mpr ⟨hw, not_le.mp hbelow⟩⟩

-- What the bounds take is an assignment.
theorem leftOver_assigned (values : Finset α) (bounds : List α) :
    ∃ given, Assigns values bounds given ∧ unassigned values given = leftOver values bounds := by
  induction bounds generalizing values with
  | nil => exact ⟨fun _ => none, ⟨by simp, by simp⟩, by ext v; simp [mem_unassigned, leftOver]⟩
  | cons bound rest ih =>
      rcases least_or_none values bound with hnone | ⟨v, hmem, hlt, hleast⟩
      · obtain ⟨given, hassigns, hleft⟩ := ih values
        refine ⟨fun i => i.casesOn none given, ⟨?_, ?_⟩, ?_⟩
        · intro i w hw
          cases i with
          | zero => cases hw
          | succ i => exact hassigns.below i w hw
        · intro i j w hi hj
          cases i with
          | zero => cases hi
          | succ i =>
              cases j with
              | zero => cases hj
              | succ j => exact congrArg Nat.succ (hassigns.distinct i j w hi hj)
        · rw [leftOver, List.foldl_cons, take_of_le hnone, ← leftOver, ← hleft]
          ext w
          simp only [mem_unassigned]
          refine and_congr_right fun _ => ⟨fun h i => h (i + 1), fun h i => ?_⟩
          cases i with
          | zero => simp
          | succ i => exact h i
      · obtain ⟨given, hassigns, hleft⟩ := ih (values.erase v)
        refine ⟨fun i => i.casesOn (some v) given, ⟨?_, ?_⟩, ?_⟩
        · intro i w hw
          cases i with
          | zero =>
              obtain rfl : v = w := Option.some.inj hw
              exact ⟨hmem, bound, rfl, hlt⟩
          | succ i =>
              obtain ⟨hin, hbelow⟩ := hassigns.below i w hw
              exact ⟨Finset.mem_of_mem_erase hin, hbelow⟩
        · intro i j w hi hj
          cases i with
          | zero =>
              cases j with
              | zero => rfl
              | succ j =>
                  obtain rfl : v = w := Option.some.inj hi
                  exact absurd rfl (Finset.ne_of_mem_erase (hassigns.below j v hj).1)
          | succ i =>
              cases j with
              | zero =>
                  obtain rfl : v = w := Option.some.inj hj
                  exact absurd rfl (Finset.ne_of_mem_erase (hassigns.below i v hi).1)
              | succ j => exact congrArg Nat.succ (hassigns.distinct i j w hi hj)
        · rw [leftOver, List.foldl_cons, take_of_least hmem hlt hleast, ← leftOver, ← hleft]
          ext w
          simp only [mem_unassigned, Finset.mem_erase]
          constructor
          · rintro ⟨hw, h⟩
            exact ⟨⟨fun hv => h 0 (hv ▸ rfl), hw⟩, fun i => h (i + 1)⟩
          · rintro ⟨⟨hne, hw⟩, h⟩
            refine ⟨hw, fun i => ?_⟩
            cases i with
            | zero => exact fun hv => hne (Option.some.inj hv).symm
            | succ i => exact h i

-- The exchange: a value can go with the first bound, and whichever bound had it takes
-- what the first bound had.
theorem exchange (hmem : v ∈ values) {rest : List α} (hsorted : ∀ other ∈ rest, bound ≤ other)
    (h : Assigns values (bound :: rest) given) :
    ∃ later, Assigns (values.erase v) rest later ∧
      (unassigned (values.erase v) later).card ≤ (unassigned values given).card := by
  have hshift : ∀ i w, given (i + 1) = some w → w ∈ values ∧ ∃ other, rest[i]? = some other ∧ w < other := by
    intro i w hw
    obtain ⟨hin, other, hother, hlt⟩ := h.below (i + 1) w hw
    exact ⟨hin, other, by simpa using hother, hlt⟩
  by_cases hlater : ∃ j, given (j + 1) = some v
  · obtain ⟨j, hj⟩ := hlater
    have hfirst : given 0 ≠ some v := fun h0 => by simpa using h.distinct 0 (j + 1) v h0 hj
    refine ⟨fun i => if given (i + 1) = some v then given 0 else given (i + 1), ⟨?_, ?_⟩, ?_⟩
    · intro i w hw
      by_cases hi : given (i + 1) = some v
      · rw [if_pos hi] at hw
        obtain ⟨hin, other, hother, hlt⟩ := h.below 0 w hw
        obtain ⟨-, later, hrest, -⟩ := hshift i v hi
        obtain rfl : bound = other := by simpa using hother
        refine ⟨Finset.mem_erase.mpr ⟨fun hv => hfirst (hv ▸ hw), hin⟩, later, hrest, ?_⟩
        exact hlt.trans_le (hsorted later (List.mem_of_getElem? hrest))
      · rw [if_neg hi] at hw
        obtain ⟨hin, hbelow⟩ := hshift i w hw
        exact ⟨Finset.mem_erase.mpr ⟨fun hv => hi (hv ▸ hw), hin⟩, hbelow⟩
    · intro i k w hi hk
      by_cases hiv : given (i + 1) = some v <;> by_cases hkv : given (k + 1) = some v
      · simpa using h.distinct (i + 1) (k + 1) v hiv hkv
      · rw [if_pos hiv] at hi
        rw [if_neg hkv] at hk
        simpa using h.distinct 0 (k + 1) w hi hk
      · rw [if_neg hiv] at hi
        rw [if_pos hkv] at hk
        simpa using h.distinct (i + 1) 0 w hi hk
      · rw [if_neg hiv] at hi
        rw [if_neg hkv] at hk
        simpa using h.distinct (i + 1) (k + 1) w hi hk
    · apply Finset.card_le_card
      intro u hu
      obtain ⟨hin, hfree⟩ := mem_unassigned.mp hu
      obtain ⟨hne, hvalue⟩ := Finset.mem_erase.mp hin
      refine mem_unassigned.mpr ⟨hvalue, fun i hi => ?_⟩
      cases i with
      | zero => exact hfree j (by rw [if_pos hj]; exact hi)
      | succ i =>
          refine hfree i ?_
          rw [if_neg (fun hv => hne (Option.some.inj (hi.symm.trans hv)))]
          exact hi
  · refine ⟨fun i => given (i + 1), ⟨?_, ?_⟩, ?_⟩
    · intro i w hw
      obtain ⟨hin, hbelow⟩ := hshift i w hw
      exact ⟨Finset.mem_erase.mpr ⟨fun hv => hlater ⟨i, hv ▸ hw⟩, hin⟩, hbelow⟩
    · intro i k w hi hk
      simpa using h.distinct (i + 1) (k + 1) w hi hk
    · -- Only what the first bound had is free now, and the least value is gone.
      have hfree : ∀ u ∈ unassigned (values.erase v) (fun i => given (i + 1)), u ≠ v ∧ (given 0 ≠ some u → u ∈ unassigned values given) := by
        intro u hu
        obtain ⟨hin, hfree⟩ := mem_unassigned.mp hu
        obtain ⟨hne, hvalue⟩ := Finset.mem_erase.mp hin
        refine ⟨hne, fun hzero => mem_unassigned.mpr ⟨hvalue, fun i => ?_⟩⟩
        cases i with
        | zero => exact hzero
        | succ i => exact hfree i
      by_cases hv : v ∈ unassigned values given
      · cases hzero : given 0 with
        | none => exact Finset.card_le_card fun u hu => (hfree u hu).2 (by simp [hzero])
        | some w =>
            have hsub : unassigned (values.erase v) (fun i => given (i + 1)) ⊆ insert w ((unassigned values given).erase v) := by
              intro u hu
              obtain ⟨hne, hother⟩ := hfree u hu
              by_cases huw : u = w
              · exact Finset.mem_insert.mpr (Or.inl huw)
              · refine Finset.mem_insert.mpr (Or.inr (Finset.mem_erase.mpr ⟨hne, hother ?_⟩))
                rw [hzero]
                exact fun hw => huw (Option.some.inj hw).symm
            calc (unassigned (values.erase v) (fun i => given (i + 1))).card
                ≤ (insert w ((unassigned values given).erase v)).card := Finset.card_le_card hsub
              _ ≤ ((unassigned values given).erase v).card + 1 := Finset.card_insert_le _ _
              _ = (unassigned values given).card := Finset.card_erase_add_one hv
      · have hzero : given 0 = some v := by
          by_contra hne
          refine hv (mem_unassigned.mpr ⟨hmem, fun i => ?_⟩)
          cases i with
          | zero => exact hne
          | succ i => exact fun hi => hlater ⟨i, hi⟩
        refine Finset.card_le_card fun u hu => ?_
        obtain ⟨hne, hother⟩ := hfree u hu
        refine hother ?_
        rw [hzero]
        exact fun hu => hne (Option.some.inj hu).symm

theorem leftOver_le (hsorted : bounds.Pairwise (· ≤ ·)) (h : Assigns values bounds given) :
    (leftOver values bounds).card ≤ (unassigned values given).card := by
  induction bounds generalizing values given with
  | nil =>
      apply Finset.card_le_card
      intro v hv
      refine mem_unassigned.mpr ⟨hv, fun i hi => ?_⟩
      obtain ⟨-, bound, hbound, -⟩ := h.below i v hi
      simp at hbound
  | cons bound rest ih =>
      obtain ⟨hfirst, hrest⟩ := List.pairwise_cons.mp hsorted
      rcases least_or_none values bound with hnone | ⟨v, hmem, hlt, hleast⟩
      · have hzero : given 0 = none := by
          rw [Option.eq_none_iff_forall_ne_some]
          intro w hw
          obtain ⟨hin, other, hother, hbelow⟩ := h.below 0 w hw
          obtain rfl : bound = other := by simpa using hother
          exact absurd hbelow (not_lt.mpr (hnone w hin))
        have hlater : Assigns values rest fun i => given (i + 1) := by
          refine ⟨fun i w hw => ?_, fun i j w hi hj => by simpa using h.distinct (i + 1) (j + 1) w hi hj⟩
          obtain ⟨hin, other, hother, hbelow⟩ := h.below (i + 1) w hw
          exact ⟨hin, other, by simpa using hother, hbelow⟩
        have hsame : unassigned values (fun i => given (i + 1)) ⊆ unassigned values given := by
          intro u hu
          obtain ⟨hin, hfree⟩ := mem_unassigned.mp hu
          refine mem_unassigned.mpr ⟨hin, fun i => ?_⟩
          cases i with
          | zero => simp [hzero]
          | succ i => exact hfree i
        rw [leftOver, List.foldl_cons, take_of_le hnone]
        exact (ih hrest hlater).trans (Finset.card_le_card hsame)
      · obtain ⟨later, hlater, hcard⟩ := exchange hmem hfirst h
        rw [leftOver, List.foldl_cons, take_of_least hmem hlt hleast]
        exact (ih hrest hlater).trans hcard

-- Served in ascending order, the bounds leave as few values as any assignment can.
theorem leftOver_isLeast (values : Finset α) (hsorted : bounds.Pairwise (· ≤ ·)) :
    IsLeast {k | ∃ given, Assigns values bounds given ∧ (unassigned values given).card = k} (leftOver values bounds).card := by
  obtain ⟨given, hassigns, hleft⟩ := leftOver_assigned values bounds
  refine ⟨⟨given, hassigns, by rw [hleft]⟩, ?_⟩
  rintro k ⟨other, hother, rfl⟩
  exact leftOver_le hsorted hother

end Greedy
