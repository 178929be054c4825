import AuditableMcp.Host.Deliveries
import AuditableMcp.Json.Scalars

-- The canonicalization guard and the domain it stands before.
namespace AuditableMcp

section

variable {P : Primitives} {value event : Json}

theorem hasLoneSurrogate_iff : hasLoneSurrogate value = false ↔ ∀ text ∈ value.texts, text.WellFormed := by
  rw [Json.hasLoneSurrogate_eq, List.any_eq_false]
  simp only [JsString.wellFormed_iff, Bool.not_eq_true]

theorem hasUnsafeNumber_iff : hasUnsafeNumber value = true ↔ ∃ n ∈ value.numbers, Unrepresentable n := by
  rw [Json.hasUnsafeNumber_eq, List.any_eq_true]
  simp only [isUnsafe_iff]

theorem canonicalizable_iff :
    Canonicalizable value ↔ (∀ text ∈ value.texts, text.WellFormed) ∧ ¬∃ n ∈ value.numbers, Unrepresentable n := by
  rw [Canonicalizable, hasLoneSurrogate_iff, ← hasUnsafeNumber_iff, Bool.not_eq_true]
  exact and_comm

theorem canonicalize_throws_iff :
    (∃ message, canonicalize P value = .error (.canonicalizationError message)) ↔ ¬Canonicalizable value := by
  constructor
  · rintro ⟨message, hthrows⟩ hcan
    rw [canonicalize_of_canonicalizable P hcan] at hthrows
    cases hthrows
  · intro hcan
    unfold canonicalize
    by_cases hnumber : hasUnsafeNumber value = true
    · rw [if_pos hnumber]
      exact ⟨_, rfl⟩
    · by_cases hlone : hasLoneSurrogate value = true
      · rw [if_neg hnumber, if_pos hlone]
        exact ⟨_, rfl⟩
      · exact absurd ⟨by simpa using hnumber, by simpa using hlone⟩ hcan

-- A record's preimage is canonicalizable where the event and the host's own fields are.
theorem recordPreimage_canonicalizable {seq : Nat} {hostTs previousHash : JsString} (hevent : Canonicalizable event)
    (hseq : (seq : ℚ) ≤ MAX_SAFE_INTEGER) (hhostTs : hostTs.WellFormed) (hprevious : previousHash.WellFormed) :
    Canonicalizable (recordPreimage (some event) (some (.num (.ofNat seq))) (some (.str hostTs)) (some (.str previousHash))) := by
  apply objectOf_canonicalizable
  simp only [List.forall_mem_cons, List.not_mem_nil, false_imp_iff, implies_true, and_true, Option.some.injEq, forall_eq']
  exact ⟨⟨by decide, hevent⟩, ⟨by decide, canonicalizable_str ((JsString.wellFormed_iff hostTs).mp hhostTs)⟩,
    ⟨by decide, canonicalizable_str ((JsString.wellFormed_iff previousHash).mp hprevious)⟩, by decide,
    canonicalizable_count hseq⟩

end

-- The guard and the domain are one, and an event the host has admitted is inside it.
theorem guard_draws_domain :
    (∀ value, hasLoneSurrogate value = false ↔ ∀ text ∈ value.texts, text.WellFormed) ∧
    (∀ P value, (∃ message, canonicalize P value = .error (.canonicalizationError message)) ↔
      (∃ text ∈ value.texts, ¬text.WellFormed) ∨ ∃ n ∈ value.numbers, Unrepresentable n) ∧
    ∀ P (host after : AuditHost) event expected attempt sessionId,
      host.admitEvent P event expected attempt = (after, .ok (.session sessionId)) →
        (∃ text, canonicalize P event = .ok text) ∧ (∃ digest, digestOf P event = .ok digest) ∧
        ∀ (seq : Nat) (hostTs previousHash : JsString), (seq : ℚ) ≤ MAX_SAFE_INTEGER → hostTs.WellFormed →
          previousHash.WellFormed → ∃ hash, computeRecordHash P (some event) (some (.num (.ofNat seq)))
            (some (.str hostTs)) (some (.str previousHash)) = .ok hash := by
  refine ⟨fun value => hasLoneSurrogate_iff, fun P value => ?_, fun P host after event expected attempt sessionId hadmitted => ?_⟩
  · rw [canonicalize_throws_iff, canonicalizable_iff, not_and_or, not_not]
    simp only [not_forall, exists_prop]
  · obtain ⟨rfl, hadmits⟩ := AuditHost.admitEvent_session hadmitted
    have hcan := hadmits.admissible.canonicalizable
    refine ⟨(canonicalize_isOk P event).mpr hcan, ⟨_, hadmits.admissible.digestOf_ok P⟩, fun seq hostTs previousHash hseq hhostTs hprevious => ?_⟩
    obtain ⟨text, htext⟩ := (canonicalize_isOk P _).mpr (recordPreimage_canonicalizable hcan hseq hhostTs hprevious)
    refine ⟨sha256Hex P text, ?_⟩
    rw [computeRecordHash, htext]
    rfl

end AuditableMcp
