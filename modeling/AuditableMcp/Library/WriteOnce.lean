import Mathlib.Data.List.Basic

-- A map whose keys stay bound to what they were first bound to: a further binding
-- is an addition where it agrees with what stands, and impossible where it does not.
namespace WriteOnce

variable {κ α : Type} {before middle after other : κ → Option α} {entries more : List (κ × α)}

structure Adds (before : κ → Option α) (entries : List (κ × α)) (after : κ → Option α) : Prop where
  kept : ∀ key value, before key = some value → after key = some value
  added : ∀ entry ∈ entries, after entry.1 = some entry.2
  only : ∀ key value, after key = some value → before key = some value ∨ (key, value) ∈ entries

theorem Adds.refl (before : κ → Option α) : Adds before [] before :=
  ⟨fun _ _ h => h, by simp, fun _ _ h => Or.inl h⟩

theorem Adds.unique (h : Adds before entries after) (h' : Adds before entries other) : after = other := by
  have hsub {f g : κ → Option α} (hf : Adds before entries f) (hg : Adds before entries g) (key : κ) (value : α)
      (hkey : f key = some value) : g key = some value := by
    rcases hf.only key value hkey with hb | hm
    · exact hg.kept key value hb
    · exact hg.added (key, value) hm
  funext key
  cases ha : after key with
  | some value => exact (hsub h h' key value ha).symm
  | none =>
      cases ho : other key with
      | none => rfl
      | some value =>
          rw [hsub h' h key value ho] at ha
          cases ha

-- What is added is a set: neither order nor repetition counts.
theorem Adds.congr (h : Adds before entries after) (hmem : ∀ entry, entry ∈ entries ↔ entry ∈ more) :
    Adds before more after :=
  ⟨h.kept, fun entry he => h.added entry ((hmem entry).mpr he),
    fun key value hkey => (h.only key value hkey).imp_right (hmem (key, value)).mp⟩

theorem Adds.trans (h : Adds before entries middle) (h' : Adds middle more after) :
    Adds before (entries ++ more) after := by
  refine ⟨fun key value hkey => h'.kept key value (h.kept key value hkey), fun entry he => ?_, fun key value hkey => ?_⟩
  · rcases List.mem_append.mp he with hm | hm
    · exact h'.kept entry.1 entry.2 (h.added entry hm)
    · exact h'.added entry hm
  · rw [List.mem_append]
    rcases h'.only key value hkey with hm | hm
    · exact (h.only key value hm).imp_right Or.inl
    · exact Or.inr (Or.inr hm)

-- An addition can be made in two parts, cut anywhere.
theorem Adds.split (h : Adds before (entries ++ more) after) :
    ∃ middle, Adds before entries middle ∧ Adds middle more after := by
  classical
  have hhere (key : κ) (value : α) :
      (if (before key).isSome ∨ key ∈ entries.map Prod.fst then after key else none) = some value →
        after key = some value := by
    intro hkey
    split at hkey
    · exact hkey
    · cases hkey
  refine ⟨fun key => if (before key).isSome ∨ key ∈ entries.map Prod.fst then after key else none, ?_, ?_⟩
  · refine ⟨fun key value hkey => ?_, fun entry he => ?_, fun key value hkey => ?_⟩
    · rw [if_pos (Or.inl (by rw [hkey]; rfl))]
      exact h.kept key value hkey
    · rw [if_pos (Or.inr (List.mem_map_of_mem he))]
      exact h.added entry (List.mem_append_left more he)
    · have hafter := hhere key value hkey
      split at hkey
      · rename_i hknown
        rcases hknown with hb | hm
        · obtain ⟨bound, hbound⟩ := Option.isSome_iff_exists.mp hb
          rw [h.kept key bound hbound] at hafter
          rw [← hafter]
          exact Or.inl hbound
        · obtain ⟨entry, he, rfl⟩ := List.mem_map.mp hm
          rw [h.added entry (List.mem_append_left more he)] at hafter
          rw [← Option.some.inj hafter]
          exact Or.inr he
      · cases hkey
  · refine ⟨hhere, fun entry he => h.added entry (List.mem_append_right entries he), fun key value hkey => ?_⟩
    by_cases hknown : (before key).isSome ∨ key ∈ entries.map Prod.fst
    · rw [if_pos hknown]
      exact Or.inl hkey
    · rcases h.only key value hkey with hb | hm
      · exact absurd (Or.inl (by rw [hb]; rfl)) hknown
      · rcases List.mem_append.mp hm with he | he
        · exact absurd (Or.inr (List.mem_map_of_mem he)) hknown
        · exact Or.inr he

-- One binding fits where the key is free or bound to the same value already.
theorem adds_update [DecidableEq κ] {key : κ} {value : α} (hfits : ∀ bound, before key = some bound → bound = value) :
    Adds before [(key, value)] fun other => if key = other then some value else before other := by
  refine ⟨fun other bound hother => ?_, by simp, fun other bound hother => ?_⟩
  · by_cases hk : key = other
    · subst hk
      rw [if_pos rfl, hfits bound hother]
    · rwa [if_neg hk]
  · by_cases hk : key = other
    · subst hk
      rw [if_pos rfl] at hother
      rw [Option.some.inj hother]
      exact Or.inr (List.mem_singleton_self _)
    · rw [if_neg hk] at hother
      exact Or.inl hother

theorem Adds.fits {key : κ} {value : α} (h : Adds before [(key, value)] after) :
    ∀ bound, before key = some bound → bound = value := by
  intro bound hbound
  have hkept := h.kept key bound hbound
  rw [h.added (key, value) (by simp)] at hkept
  exact (Option.some.inj hkept).symm

theorem adds_nil_iff : Adds before [] after ↔ after = before :=
  ⟨fun h => h.unique (Adds.refl before), fun h => h ▸ Adds.refl before⟩

theorem adds_cons_iff {entry : κ × α} :
    Adds before (entry :: entries) after ↔ ∃ middle, Adds before [entry] middle ∧ Adds middle entries after := by
  rw [← List.singleton_append]
  exact ⟨Adds.split, fun h => h.choose_spec.1.trans h.choose_spec.2⟩

end WriteOnce
