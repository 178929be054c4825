import AuditableMcp.Validity

-- Events as they may stand in a stored ledger, each in the shape of its own version.
namespace AuditableMcp

open Zod

-- The versions whose events name an audit session.
def SESSION_VERSIONS : List JsString := ["auditable-mcp/0.3", SPEC_VERSION]

-- What a sealed event carries, as far as the verifier reads it.
structure SealedEvent (event : Json) (version : JsString) : Prop where
  isObject : ∃ members, event = .obj members
  stated : event.get Fields.SPEC_VERSION = some (.str version)
  known : version ∈ KNOWN_SPEC_VERSIONS
  id : ∃ s, event.get Fields.ID = some (.str s)
  outcome : ∃ s, event.get Fields.OUTCOME = some (.str s) ∧ s ∈ Outcome.all
  reason : event.get Fields.REASON = none ∨ ∃ s, event.get Fields.REASON = some (.str s)
  session : version ∈ SESSION_VERSIONS → ∃ s, event.get Fields.SESSION_ID = some (.str s)
  call : version ∉ SESSION_VERSIONS → ∃ s, event.get Fields.CALL_ID = some (.str s)
  noCall : version ∈ SESSION_VERSIONS → event.get Fields.CALL_ID = none
  level2 : version ∈ SESSION_VERSIONS → level2Together event = true
  signerSeq : version ∈ SESSION_VERSIONS → event.get Fields.SIGNER_SEQ = none ∨
    ∃ n : Nat, event.get Fields.SIGNER_SEQ = some (.num (.ofNat n)) ∧ (n : ℚ) ≤ MAX_SAFE_INTEGER
  keyId : event.get Fields.KEY_ID = none ∨ ∃ s, event.get Fields.KEY_ID = some (.str s)
  signature : event.get Fields.SIGNATURE = none ∨ ∃ s, event.get Fields.SIGNATURE = some (.str s)

theorem text_of_optional {event : Json} {name : JsString} (h : Zod.optional string (event.get name) = none) :
    event.get name = none ∨ ∃ s, event.get name = some (.str s) := by
  rcases optional_eq_none h with h | ⟨v, hv, h⟩
  · exact Or.inl h
  · obtain ⟨s, hs⟩ := string_eq_none h
    exact Or.inr ⟨s, by rw [hv, hs]⟩

theorem lookup_eq_none {members : List (JsString × Json)} {name : JsString} (h : name ∉ members.map Prod.fst) :
    Json.lookup members name = none := by
  induction members with
  | nil => rfl
  | cons head rest ih =>
      obtain ⟨key, value⟩ := head
      rw [List.map_cons, List.mem_cons, not_or] at h
      rw [Json.lookup, if_neg (Ne.symm h.1), ih h.2]

-- A strict object lacks every member its schema does not list.
theorem strictObject_lacks {fields : List Field} {members : List (JsString × Json)} {name : JsString}
    (h : strictObject fields (some (.obj members)) = none) (hname : name ∉ fields.map Field.name) :
    Json.get (.obj members) name = none :=
  lookup_eq_none fun hm => hname ((strictObject_none_iff.mp h).2 name hm)

section

variable {event : Json} {fields : List Field}

-- What every version's schema shares.
theorem sealedEvent_of_fields {version : JsString} (hobj : strictObject fields (some event) = none)
    (hversion : ⟨Fields.SPEC_VERSION, Zod.oneOf [version]⟩ ∈ fields) (hknown : version ∈ KNOWN_SPEC_VERSIONS)
    (uuid : Pattern UInt16) (hid : ⟨Fields.ID, regex uuid⟩ ∈ fields)
    (houtcome : ⟨Fields.OUTCOME, Zod.oneOf Outcome.all⟩ ∈ fields)
    (hreason : event.get Fields.REASON = none ∨ ∃ s, event.get Fields.REASON = some (.str s))
    (hsession : version ∈ SESSION_VERSIONS → ⟨Fields.SESSION_ID, regex SESSION_ID_PATTERN⟩ ∈ fields ∧
      Fields.CALL_ID ∉ fields.map Field.name ∧ ⟨Fields.SIGNER_SEQ, Zod.optional safeNat⟩ ∈ fields ∧
      level2Together event = true)
    (hcall : version ∉ SESSION_VERSIONS → ⟨Fields.CALL_ID, nonEmpty⟩ ∈ fields)
    (hkey : event.get Fields.KEY_ID = none ∨ ∃ s, event.get Fields.KEY_ID = some (.str s))
    (hsignature : event.get Fields.SIGNATURE = none ∨ ∃ s, event.get Fields.SIGNATURE = some (.str s)) :
    SealedEvent event version := by
  obtain ⟨members, hm, hfields⟩ := strictObject_eq_none hobj
  obtain rfl : event = .obj members := Option.some.inj hm
  obtain ⟨read, hv, hread⟩ := oneOf_eq_none (hfields _ hversion)
  obtain ⟨id, hi, -⟩ := regex_eq_none (hfields _ hid)
  obtain ⟨outcome, ho, hout⟩ := oneOf_eq_none (hfields _ houtcome)
  exact
    { isObject := ⟨members, rfl⟩
      stated := by rw [hv, List.mem_singleton.mp hread]
      known := hknown
      id := ⟨id, hi⟩
      outcome := ⟨outcome, ho, hout⟩
      reason := hreason
      session := fun h => by
        obtain ⟨session, hs, -⟩ := regex_eq_none (hfields _ (hsession h).1)
        exact ⟨session, hs⟩
      call := fun h => by
        obtain ⟨call, hc, -⟩ := nonEmpty_eq_none (hfields _ (hcall h))
        exact ⟨call, hc⟩
      noCall := fun h => strictObject_lacks hobj (hsession h).2.1
      level2 := fun h => (hsession h).2.2.2
      signerSeq := fun h => signerSeq_of_optional (hfields _ (hsession h).2.2.1)
      keyId := hkey
      signature := hsignature }

theorem field_of_strictObject (hobj : strictObject fields (some event) = none) (field : Field) (hin : field ∈ fields) :
    field.schema (event.get field.name) = none := by
  obtain ⟨members, hm, hfields⟩ := strictObject_eq_none hobj
  obtain rfl : event = .obj members := Option.some.inj hm
  exact hfields field hin

theorem sealedEvent_of_version01 (h : version01EventSchema (some event) = none) :
    SealedEvent event "auditable-mcp/0.1" := by
  have hfield (field : Field) (hin : field ∈ version01EventFields) : field.schema (event.get field.name) = none :=
    field_of_strictObject h field hin
  exact sealedEvent_of_fields h (by simp [version01EventFields]) (by decide) earlierUuidRegex
    (by simp [version01EventFields, earlierSharedFields]) (by simp [version01EventFields, earlierSharedFields])
    (text_of_optional (hfield ⟨Fields.REASON, Zod.optional string⟩ (by simp [version01EventFields])))
    (fun hs => absurd hs (by decide)) (fun _ => by simp [version01EventFields, earlierSharedFields])
    (text_of_optional (hfield ⟨Fields.KEY_ID, Zod.optional string⟩ (by simp [version01EventFields])))
    (text_of_optional (hfield ⟨Fields.SIGNATURE, Zod.optional string⟩ (by simp [version01EventFields])))

theorem sealedEvent_of_version011Or02 {version : JsString}
    (hversion : version = "auditable-mcp/0.1.1" ∨ version = "auditable-mcp/0.2")
    (h : version011Or02EventSchema version (some event) = none) : SealedEvent event version := by
  obtain ⟨hobj, -⟩ := refine_eq_none.mp h
  have hfield (field : Field) (hin : field ∈ version011Or02EventFields version) :
      field.schema (event.get field.name) = none := field_of_strictObject hobj field hin
  have hreason : event.get Fields.REASON = none ∨ ∃ s, event.get Fields.REASON = some (.str s) := by
    rcases optional_eq_none (hfield ⟨Fields.REASON, Zod.optional (Zod.oneOf
      ["hash-mismatch", "host-rejected", "host-unavailable"])⟩ (by simp [version011Or02EventFields])) with h | ⟨v, hv, h⟩
    · exact Or.inl h
    · obtain ⟨s, hs, _⟩ := oneOf_eq_none h
      exact Or.inr ⟨s, by rw [← hs]; exact hv⟩
  have hknown : version ∈ KNOWN_SPEC_VERSIONS ∧ version ∉ SESSION_VERSIONS := by
    rcases hversion with rfl | rfl <;> decide
  exact sealedEvent_of_fields hobj (by simp [version011Or02EventFields]) hknown.1 earlierUuidRegex
    (by simp [version011Or02EventFields, earlierSharedFields])
    (by simp [version011Or02EventFields, earlierSharedFields]) hreason
    (fun hs => absurd hs hknown.2) (fun _ => by simp [version011Or02EventFields, earlierSharedFields])
    (keyId_of_optional (hfield ⟨Fields.KEY_ID, Zod.optional nonEmpty⟩
      (by simp [version011Or02EventFields])))
    ((signature_of_optional (hfield ⟨Fields.SIGNATURE, Zod.optional (regex EARLIER_SIGNATURE_PATTERN)⟩
      (by simp [version011Or02EventFields]))).imp id fun ⟨s, hs, _⟩ => ⟨s, hs⟩)

-- The two versions whose events name a session share the rest of their fields.
theorem sealedEvent_of_session {version : JsString} (hversion : version ∈ KNOWN_SPEC_VERSIONS)
    (hobj : strictObject fields (some event) = none) (hlevel2 : level2Together event = true)
    (hfirst : ⟨Fields.SPEC_VERSION, Zod.oneOf [version]⟩ ∈ fields)
    (hsession : ⟨Fields.SESSION_ID, regex SESSION_ID_PATTERN⟩ ∈ fields)
    (hshared : ∀ field ∈ auditEventFields, field ∈ fields) (hcall : Fields.CALL_ID ∉ fields.map Field.name)
    (hin : version ∈ SESSION_VERSIONS) : SealedEvent event version := by
  have hfield (field : Field) (hmem : field ∈ auditEventFields) : field.schema (event.get field.name) = none :=
    field_of_strictObject hobj field (hshared field hmem)
  exact sealedEvent_of_fields hobj hfirst hversion UUID_PATTERN
    (hshared _ (by simp [auditEventFields])) (hshared _ (by simp [auditEventFields]))
    (reason_of_optional (hfield ⟨Fields.REASON, Zod.optional abortReasonSchema⟩
      (by simp [auditEventFields])))
    (fun _ => ⟨hsession, hcall, hshared _ (by simp [auditEventFields]), hlevel2⟩) (fun h => absurd hin h)
    (keyId_of_optional (hfield ⟨Fields.KEY_ID, Zod.optional nonEmpty⟩ (by simp [auditEventFields])))
    ((signature_of_optional (hfield ⟨Fields.SIGNATURE, Zod.optional (regex SIGNATURE_PATTERN)⟩
      (by simp [auditEventFields]))).imp id fun ⟨s, hs, _⟩ => ⟨s, hs⟩)

theorem sealedEvent_of_version03 (h : version03EventSchema (some event) = none) :
    SealedEvent event "auditable-mcp/0.3" := by
  obtain ⟨hinner, hlevel2⟩ := refine_eq_none.mp h
  obtain ⟨hobj, -⟩ := refine_eq_none.mp hinner
  exact sealedEvent_of_session (by decide) hobj hlevel2 (by simp [version03EventFields])
    (by simp [version03EventFields]) (fun field hf => by simp [version03EventFields, hf]) (by decide) (by decide)

theorem sealedEvent_of_current (h : auditEventSchema (some event) = none) : SealedEvent event SPEC_VERSION := by
  obtain ⟨hinner, hlevel2⟩ := refine_eq_none.mp h
  obtain ⟨hobj, -⟩ := refine_eq_none.mp hinner
  exact sealedEvent_of_session (by decide) hobj hlevel2 (by simp [currentEventFields])
    (by simp [currentEventFields]) (fun field hf => by simp [currentEventFields, hf]) (by decide) (by decide)

end

-- An event that passes the verifier's structural check has the shape of its version.
theorem sealedEvent_of_valid {event : Json} (h : firstSealedValidationError (some event) = none) :
    ∃ version, SealedEvent event version := by
  have hcurrent (hv : firstValidationError (some event) = none) : ∃ version, SealedEvent event version :=
    ⟨_, sealedEvent_of_current (firstValidationError_eq_none.mp hv).1⟩
  unfold firstSealedValidationError at h
  split at h
  · rename_i version hversion
    unfold EARLIER_EVENT_SCHEMAS at h
    split_ifs at h with h01 h011 h02 h03
    · exact ⟨_, sealedEvent_of_version01 (firstError_eq_none.mp (Option.or_eq_none_iff.mp h).1)⟩
    · exact ⟨_, sealedEvent_of_version011Or02 (Or.inl rfl) (firstError_eq_none.mp (Option.or_eq_none_iff.mp h).1)⟩
    · exact ⟨_, sealedEvent_of_version011Or02 (Or.inr rfl) (firstError_eq_none.mp (Option.or_eq_none_iff.mp h).1)⟩
    · exact ⟨_, sealedEvent_of_version03 (firstError_eq_none.mp (Option.or_eq_none_iff.mp h).1)⟩
    · exact hcurrent h
  · exact hcurrent h

end AuditableMcp
