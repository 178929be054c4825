import AuditableMcp.Models

namespace AuditableMcp

open Zod

-- What a valid event of the current version carries, as far as the host and the
-- verifier read it.
structure CurrentEvent (event : Json) : Prop where
  isObject : ∃ members, event = .obj members
  version : event.get Fields.SPEC_VERSION = some (.str SPEC_VERSION)
  session : ∃ s, event.get Fields.SESSION_ID = some (.str s)
  id : ∃ s, event.get Fields.ID = some (.str s)
  outcome : ∃ s, event.get Fields.OUTCOME = some (.str s) ∧ s ∈ Outcome.all
  reason : event.get Fields.REASON = none ∨ ∃ s, event.get Fields.REASON = some (.str s)
  level2 : level2Together event = true
  signerSeq : event.get Fields.SIGNER_SEQ = none ∨
    ∃ n : Nat, event.get Fields.SIGNER_SEQ = some (.num (.ofNat n)) ∧ (n : ℚ) ≤ MAX_SAFE_INTEGER
  keyId : event.get Fields.KEY_ID = none ∨ ∃ s, event.get Fields.KEY_ID = some (.str s)
  signature : event.get Fields.SIGNATURE = none ∨
    ∃ s, event.get Fields.SIGNATURE = some (.str s) ∧ SIGNATURE_PATTERN.test s.units = true
  wellFormed : hasLoneSurrogate event = false

def isAttempted (event : Json) : Bool := Json.isText (event.get Fields.OUTCOME) Outcome.ATTEMPTED

theorem firstError_eq_none {schema : Schema} {event : Option Json} :
    firstError schema event = none ↔ schema event = none := by
  simp [firstError]

theorem surrogateError_eq_none {event : Json} :
    surrogateError (some event) = none ↔ hasLoneSurrogate event = false := by
  simp [surrogateError]

theorem firstValidationError_eq_none {event : Json} :
    firstValidationError (some event) = none ↔
      auditEventSchema (some event) = none ∧ hasLoneSurrogate event = false := by
  simp [firstValidationError, firstError_eq_none, surrogateError_eq_none]

theorem signature_of_optional {event : Json} {pattern : Pattern UInt16}
    (h : Zod.optional (regex pattern) (event.get Fields.SIGNATURE) = none) :
    event.get Fields.SIGNATURE = none ∨
      ∃ s, event.get Fields.SIGNATURE = some (.str s) ∧ pattern.test s.units = true := by
  rcases optional_eq_none h with h | ⟨v, hv, h⟩
  · exact Or.inl h
  · obtain ⟨s, hs, hp⟩ := regex_eq_none h
    exact Or.inr ⟨s, by rw [hv, hs], hp⟩

theorem keyId_of_optional {event : Json} (h : Zod.optional nonEmpty (event.get Fields.KEY_ID) = none) :
    event.get Fields.KEY_ID = none ∨ ∃ s, event.get Fields.KEY_ID = some (.str s) := by
  rcases optional_eq_none h with h | ⟨v, hv, h⟩
  · exact Or.inl h
  · obtain ⟨s, hs, _⟩ := nonEmpty_eq_none h
    exact Or.inr ⟨s, by rw [hv, hs]⟩

theorem signerSeq_of_optional {event : Json} (h : Zod.optional safeNat (event.get Fields.SIGNER_SEQ) = none) :
    event.get Fields.SIGNER_SEQ = none ∨
      ∃ n : Nat, event.get Fields.SIGNER_SEQ = some (.num (.ofNat n)) ∧ (n : ℚ) ≤ MAX_SAFE_INTEGER := by
  rcases optional_eq_none h with h | ⟨v, hv, h⟩
  · exact Or.inl h
  · obtain ⟨n, hn, hb⟩ := safeNat_eq_none h
    exact Or.inr ⟨n, by rw [hv, hn], hb⟩

theorem reason_of_optional {event : Json}
    (h : Zod.optional abortReasonSchema (event.get Fields.REASON) = none) :
    event.get Fields.REASON = none ∨ ∃ s, event.get Fields.REASON = some (.str s) := by
  rcases optional_eq_none h with h | ⟨v, hv, h⟩
  · exact Or.inl h
  · obtain ⟨s, hs, _⟩ := oneOf_eq_none h
    exact Or.inr ⟨s, by rw [hv, hs]⟩

theorem currentEvent_of_valid {event : Json} (h : firstValidationError (some event) = none) :
    CurrentEvent event := by
  obtain ⟨hschema, hwf⟩ := firstValidationError_eq_none.mp h
  obtain ⟨hinner, hl2⟩ := refine_eq_none.mp hschema
  obtain ⟨hobj, -⟩ := refine_eq_none.mp hinner
  obtain ⟨members, hm, hfields⟩ := strictObject_eq_none hobj
  obtain rfl : event = .obj members := Option.some.inj hm
  have hfield (field : Field) (hin : field ∈ currentEventFields) :
      field.schema (Json.get (.obj members) field.name) = none := hfields field hin
  obtain ⟨version, hv, hversion⟩ := oneOf_eq_none
    (hfield ⟨Fields.SPEC_VERSION, Zod.oneOf [SPEC_VERSION]⟩ (by simp [currentEventFields]))
  obtain ⟨session, hs, -⟩ := regex_eq_none
    (hfield ⟨Fields.SESSION_ID, regex SESSION_ID_PATTERN⟩ (by simp [currentEventFields]))
  obtain ⟨id, hi, -⟩ := regex_eq_none
    (hfield ⟨Fields.ID, regex UUID_PATTERN⟩ (by simp [currentEventFields, auditEventFields]))
  obtain ⟨outcome, ho, hout⟩ := oneOf_eq_none
    (hfield ⟨Fields.OUTCOME, Zod.oneOf Outcome.all⟩ (by simp [currentEventFields, auditEventFields]))
  exact
    { isObject := ⟨members, rfl⟩
      version := by rw [hv, List.mem_singleton.mp hversion]
      session := ⟨session, hs⟩
      id := ⟨id, hi⟩
      outcome := ⟨outcome, ho, hout⟩
      reason := reason_of_optional
        (hfield ⟨Fields.REASON, Zod.optional abortReasonSchema⟩ (by simp [currentEventFields, auditEventFields]))
      level2 := hl2
      signerSeq := signerSeq_of_optional
        (hfield ⟨Fields.SIGNER_SEQ, Zod.optional safeNat⟩ (by simp [currentEventFields, auditEventFields]))
      keyId := keyId_of_optional
        (hfield ⟨Fields.KEY_ID, Zod.optional nonEmpty⟩ (by simp [currentEventFields, auditEventFields]))
      signature := signature_of_optional
        (hfield ⟨Fields.SIGNATURE, Zod.optional (regex SIGNATURE_PATTERN)⟩
          (by simp [currentEventFields, auditEventFields]))
      wellFormed := hwf }

end AuditableMcp
