import AuditableMcp.Verify.Sessions
import Mathlib.Data.List.Dedup

-- The runs of missing numbers the accounting reports, in terms of the numbers sealed.
namespace AuditableMcp

def Covers (runs : List (Nat × Nat)) (v : Nat) : Prop := ∃ run ∈ runs, run.1 ≤ v ∧ v ≤ run.2

-- No run is empty.
def Filled (runs : List (Nat × Nat)) : Prop := ∀ run ∈ runs, run.1 ≤ run.2

theorem covers_cons (run : Nat × Nat) (rest : List (Nat × Nat)) (v : Nat) :
    Covers (run :: rest) v ↔ (run.1 ≤ v ∧ v ≤ run.2) ∨ Covers rest v := by
  simp [Covers]

theorem filled_cons (run : Nat × Nat) (rest : List (Nat × Nat)) : Filled (run :: rest) ↔ run.1 ≤ run.2 ∧ Filled rest := by
  simp [Filled]

-- Below the largest of a strictly increasing list, the runs cover what it leaves out.
theorem runsFrom_covers (values : List Nat) (next : Nat) (hsorted : values.Pairwise (· < ·)) (hnext : ∀ n ∈ values, next ≤ n)
    (v : Nat) : Covers (runsFrom next values) v ↔ next ≤ v ∧ v ∉ values ∧ ∃ n ∈ values, v < n := by
  induction values generalizing next with
  | nil => simp [runsFrom, Covers]
  | cons value rest ih =>
      obtain ⟨habove, hrest⟩ := List.pairwise_cons.mp hsorted
      have hvalue : next ≤ value := hnext value (List.mem_cons_self ..)
      have hih := ih (value + 1) hrest habove
      simp only [List.mem_cons, not_or, exists_eq_or_imp]
      -- Whatever lies past the value is for the rest to tell.
      have hpast : (value + 1 ≤ v ∧ v ∉ rest ∧ ∃ n ∈ rest, v < n) ↔
          value < v ∧ v ∉ rest ∧ ∃ n ∈ rest, v < n := Iff.rfl
      have hbefore : v < value → v ∉ rest := fun hv hmem => absurd (habove v hmem) (by omega)
      unfold runsFrom
      by_cases hgap : next < value
      · rw [if_pos hgap, covers_cons, hih, hpast]
        constructor
        · rintro (⟨hlow, hhigh⟩ | ⟨hlow, hnot, hlarger⟩)
          · have hv : v < value := by omega
            exact ⟨hlow, ⟨by omega, hbefore hv⟩, Or.inl hv⟩
          · exact ⟨by omega, ⟨by omega, hnot⟩, Or.inr hlarger⟩
        · rintro ⟨hlow, ⟨hne, hnot⟩, hlarger⟩
          by_cases hv : v < value
          · exact Or.inl ⟨hlow, by show v ≤ value - 1; omega⟩
          · exact Or.inr ⟨by omega, hnot, hlarger.resolve_left hv⟩
      · rw [if_neg hgap, hih, hpast]
        constructor
        · rintro ⟨hlow, hnot, hlarger⟩
          exact ⟨by omega, ⟨by omega, hnot⟩, Or.inr hlarger⟩
        · rintro ⟨hlow, ⟨hne, hnot⟩, hlarger⟩
          have hv : ¬v < value := by omega
          exact ⟨by omega, hnot, hlarger.resolve_left hv⟩

theorem runsFrom_filled (values : List Nat) (next : Nat) : Filled (runsFrom next values) := by
  induction values generalizing next with
  | nil => simp [runsFrom, Filled]
  | cons value rest ih =>
      unfold runsFrom
      by_cases hgap : next < value
      · rw [if_pos hgap, filled_cons]
        exact ⟨by show next ≤ value - 1; omega, ih _⟩
      · rw [if_neg hgap]
        exact ih _

-- The numbers missing are those that are not there although a larger one is.
theorem missingRuns_covers (present : List Nat) (v : Nat) :
    Covers (missingRuns present) v ↔ v ∉ present ∧ ∃ n ∈ present, v < n := by
  have hmem : ∀ n, n ∈ (present.dedup).insertionSort (· ≤ ·) ↔ n ∈ present := fun n => by
    rw [List.mem_insertionSort, List.mem_dedup]
  have hnodup : ((present.dedup).insertionSort (· ≤ ·)).Nodup :=
    (List.perm_insertionSort _ _).nodup_iff.mpr (List.nodup_dedup present)
  have hsorted : ((present.dedup).insertionSort (· ≤ ·)).Pairwise (· < ·) :=
    (((List.pairwise_insertionSort (· ≤ ·) present.dedup).and hnodup)).imp fun h => lt_of_le_of_ne h.1 h.2
  unfold missingRuns
  rw [runsFrom_covers _ 0 hsorted (fun n _ => Nat.zero_le n)]
  simp only [Nat.zero_le, true_and, hmem]

theorem accountFor_covers {missing : List (Nat × Nat)} {refusal v : Nat} (h : Covers (accountFor missing refusal) v) :
    Covers missing v := by
  unfold accountFor at h
  split at h
  · exact h
  · rename_i first last rest
    split at h
    · exact h
    · split at h
      · exact (covers_cons _ _ v).mpr (Or.inr h)
      · rcases (covers_cons _ _ v).mp h with ⟨hlow, hhigh⟩ | hrest
        · have hfirst : first ≤ v := by
            have : first + 1 ≤ v := hlow
            omega
          exact (covers_cons _ _ v).mpr (Or.inl ⟨hfirst, hhigh⟩)
        · exact (covers_cons _ _ v).mpr (Or.inr hrest)

theorem accountFor_filled {missing : List (Nat × Nat)} (h : Filled missing) (refusal : Nat) :
    Filled (accountFor missing refusal) := by
  unfold accountFor
  split
  · exact h
  · rename_i first last rest
    obtain ⟨-, hrest⟩ := (filled_cons _ _).mp h
    split
    · exact h
    · split
      · exact hrest
      · rename_i hlast
        exact (filled_cons _ _).mpr ⟨by show first + 1 ≤ last; omega, hrest⟩

-- Refusals only account for missing numbers.
theorem accounted_covers (refusals : List Nat) {missing : List (Nat × Nat)} (hfilled : Filled missing) :
    Filled (refusals.foldl accountFor missing) ∧ ∀ v, Covers (refusals.foldl accountFor missing) v → Covers missing v := by
  induction refusals generalizing missing with
  | nil => exact ⟨hfilled, fun _ h => h⟩
  | cons refusal rest ih =>
      obtain ⟨hrest, hcovers⟩ := ih (accountFor_filled hfilled refusal)
      exact ⟨hrest, fun v h => accountFor_covers (hcovers v h)⟩

-- Every group stands under its own key and session, once.
structure Grouped (accounting : Accounting) : Prop where
  nodup : accounting.groups.keys.Nodup
  own : ∀ key group, accounting.groups.get key = some group → (group.keyId, group.sessionId) = key

section Reports

variable {P : Primitives} {events : List (Option Json)}

theorem accountEvent_grouped {accounting next : Accounting} {event : Json} (hgrouped : Grouped accounting)
    (h : accountEvent P accounting event = .ok next) : Grouped next := by
  unfold accountEvent at h
  obtain ⟨operation, -, h⟩ := bind_ok h
  obtain ⟨refusal, -, h⟩ := bind_ok h
  cases hnumber : accountedNumber event with
  | none =>
      rw [hnumber] at h
      obtain rfl := pure_ok h
      exact ⟨hgrouped.nodup, hgrouped.own⟩
  | some number =>
      obtain ⟨keyId, sessionId, value⟩ := number
      rw [hnumber] at h
      obtain rfl := pure_ok h
      refine ⟨OrderedMap.nodup_keys_set hgrouped.nodup _ _, fun key group hget => ?_⟩
      rw [OrderedMap.get_set] at hget
      split at hget
      · rename_i hkey
        obtain rfl := Option.some.inj hget
        cases hold : accounting.groups.get (keyId, sessionId) with
        | none => simpa [SignerGroup.add, hold] using hkey
        | some old =>
            have hown := hgrouped.own _ old hold
            simp only [SignerGroup.add, Option.getD_some]
            rw [hown, hkey]
      · exact hgrouped.own key group hget

theorem signerGroups_grouped {accounting : Accounting} (h : signerGroups P events = .ok accounting) : Grouped accounting := by
  refine foldlM_ok_invariant (fun _ accounting => Grouped accounting) (listedEvents events) ?_
    ⟨by simp [OrderedMap.keys, OrderedMap.empty], fun _ _ hget => by simp at hget⟩ h
  intro done event rest before after _ hgrouped hstep
  exact accountEvent_grouped hgrouped hstep

-- What a finding of the accounting says about the events: none of its numbers is among
-- them under its key and session, though a larger one is.
structure Gapped (events : List (Option Json)) (gap : UnaccountedSignerSeq) : Prop where
  filled : gap.first ≤ gap.last
  missing : ∀ v, gap.first ≤ v → v ≤ gap.last →
    v ∉ (listedEvents events).filterMap (numberIn gap.key_id gap.session_id) ∧
      ∃ n ∈ (listedEvents events).filterMap (numberIn gap.key_id gap.session_id), v < n

theorem unaccountedSignerSeq_gapped {gaps : List UnaccountedSignerSeq} (h : unaccountedSignerSeq P events = .ok gaps) :
    ∀ gap ∈ gaps, Gapped events gap := by
  intro gap hgap
  obtain ⟨accounting, haccounting, h⟩ := bind_ok h
  obtain rfl := pure_ok h
  obtain ⟨⟨key, group⟩, hentry, hmem⟩ := List.mem_flatMap.mp hgap
  have hgrouped := signerGroups_grouped haccounting
  have hget := (OrderedMap.mem_entries_iff hgrouped.nodup key group).mp hentry
  have hvalues := signerGroups_values haccounting group.keyId group.sessionId
  rw [Accounting.valuesOf, hgrouped.own key group hget, hget, Option.map_some, Option.getD_some] at hvalues
  obtain ⟨run, hrun, rfl⟩ := List.mem_map.mp hmem
  obtain ⟨hfilled, hcovers⟩ := accounted_covers (group.refusals.insertionSort (· ≤ ·))
    (show Filled (missingRuns group.values) from runsFrom_filled _ 0)
  refine ⟨hfilled run hrun, fun v hlow hhigh => ?_⟩
  rw [← hvalues]
  exact (missingRuns_covers group.values v).mp (hcovers v ⟨run, hrun, hlow, hhigh⟩)

end Reports

end AuditableMcp
