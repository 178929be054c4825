import AuditableMcp.L2.Verification
import AuditableMcp.Reference.Events
import AuditableMcp.Reference.Primitives
import AuditableMcp.Sealed
import AuditableMcp.Verify.Correlation

-- Signatures in the encoding of the version their event was sealed under.
namespace AuditableMcp

open Zod

-- The schema a version is published with.
def publishedSchema (version : JsString) : Schema := (EARLIER_EVENT_SCHEMAS version).getD auditEventSchema

structure ValidUnder (version : JsString) (event : Json) : Prop where
  published : version ∈ KNOWN_SPEC_VERSIONS
  valid : publishedSchema version (some event) = none

-- Base64url without padding from v0.3 on, padded standard base64 before it.
def encodeSignature (version : JsString) (raw : List UInt8) : JsString :=
  if version ∈ SESSION_VERSIONS then bytesToBase64url raw else bytesToBase64 raw

def DecodesUnder (version text : JsString) : Prop :=
  if version ∈ SESSION_VERSIONS then ∃ raw, text = bytesToBase64url raw else PaddedBase64 text

section

variable {P : Primitives} {event : Json} {version text : JsString}

theorem ValidUnder.sealed (h : ValidUnder version event) : SealedEvent event version := by
  obtain ⟨hpublished, hvalid⟩ := h
  simp only [KNOWN_SPEC_VERSIONS, List.mem_cons, List.not_mem_nil, or_false] at hpublished
  rcases hpublished with rfl | rfl | rfl | rfl | rfl
  · exact sealedEvent_of_version01 hvalid
  · exact sealedEvent_of_version011Or02 (Or.inl rfl) hvalid
  · exact sealedEvent_of_version011Or02 (Or.inr rfl) hvalid
  · exact sealedEvent_of_version03 hvalid
  · exact sealedEvent_of_current hvalid

theorem isEarlier_iff (hknown : version ∈ KNOWN_SPEC_VERSIONS) :
    isEarlierSpecVersion (some (.str version)) = true ↔ version ≠ SPEC_VERSION := by
  have h : ∀ known, known ∈ KNOWN_SPEC_VERSIONS →
      (isEarlierSpecVersion (some (.str known)) = true ↔ known ≠ SPEC_VERSION) := by decide
  exact h version hknown

theorem version_cases (hsession : version ∈ SESSION_VERSIONS)
    (hcurrent : version ≠ SPEC_VERSION) : version = "auditable-mcp/0.3" := by
  simp only [SESSION_VERSIONS, List.mem_cons, List.not_mem_nil, or_false] at hsession
  exact hsession.resolve_right hcurrent

-- The decoder of the current version is the one for base64url, every earlier one's is for base64.
theorem decodeSignature_current (h : SealedEvent event SPEC_VERSION)
    (hsignature : event.get Fields.SIGNATURE = some (.str text)) :
    decodeSignature event = base64urlToBytes (some (.str text)) := by
  unfold decodeSignature
  rw [h.stated, hsignature]
  exact if_neg (by rw [isEarlier_iff h.known]; simp)

theorem decodeSignature_earlier (h : SealedEvent event version) (hearlier : version ≠ SPEC_VERSION)
    (hsignature : event.get Fields.SIGNATURE = some (.str text)) :
    decodeSignature event = (base64ToBytes text).toOption := by
  unfold decodeSignature
  rw [h.stated, hsignature]
  exact if_pos ((isEarlier_iff h.known).mpr hearlier)

theorem toOption_eq_some {ε α : Type} {x : Except ε α} {a : α} (h : x.toOption = some a) : x = .ok a := by
  cases x with
  | error e => cases h
  | ok b => exact congrArg _ (Option.some.inj h)

-- A version 0.3 signature is written in base64url and read as base64: 64 bytes never survive that.
theorem decodeSignature_version03 (h : SealedEvent event "auditable-mcp/0.3") {raw : List UInt8}
    (hlength : raw.length = 64) (hsignature : event.get Fields.SIGNATURE = some (.str (bytesToBase64url raw))) :
    decodeSignature event = none := by
  have htext : (bytesToBase64url raw).length = 86 := by rw [length_bytesToBase64url, hlength]
  rw [decodeSignature_earlier h (by decide) hsignature, base64ToBytes, if_pos (Or.inl (by rw [htext]; decide))]
  rfl

theorem decodeSignature_encoded (h : SealedEvent event version) (hversion : version ≠ "auditable-mcp/0.3")
    {raw : List UInt8} (hsignature : event.get Fields.SIGNATURE = some (.str (encodeSignature version raw))) :
    decodeSignature event = some raw := by
  unfold encodeSignature at hsignature
  by_cases hcurrent : version = SPEC_VERSION
  · subst hcurrent
    rw [if_pos (by decide)] at hsignature
    rw [decodeSignature_current h hsignature, base64urlToBytes_bytesToBase64url]
  · have hearlier : version ∉ SESSION_VERSIONS := fun hin => hversion (version_cases hin hcurrent)
    rw [if_neg hearlier] at hsignature
    rw [decodeSignature_earlier h hcurrent hsignature, base64ToBytes_bytesToBase64]
    rfl

-- The 0.3 schema admits the characters of base64url alone.
theorem signature_of_version03 (h : ValidUnder "auditable-mcp/0.3" event)
    (hsignature : event.get Fields.SIGNATURE = some (.str text)) : SIGNATURE_PATTERN.test text.units = true := by
  have hschema : version03EventSchema (some event) = none := h.valid
  obtain ⟨hinner, -⟩ := refine_eq_none.mp hschema
  obtain ⟨hobj, -⟩ := refine_eq_none.mp hinner
  have hfield := field_of_strictObject hobj ⟨Fields.SIGNATURE, Zod.optional (regex SIGNATURE_PATTERN)⟩
    (by simp [version03EventFields, auditEventFields])
  rcases signature_of_optional hfield with hn | ⟨s, hs, hpattern⟩
  · rw [hsignature] at hn
    cases hn
  · rw [hsignature] at hs
    rw [Json.str.inj (Option.some.inj hs)]
    exact hpattern

-- What decodes at all decodes under the event's own version.
theorem decodesUnder_of_decodeSignature (h : ValidUnder version event) {raw : List UInt8}
    (hsignature : event.get Fields.SIGNATURE = some (.str text)) (hdecoded : decodeSignature event = some raw) :
    DecodesUnder version text := by
  have hsealed := h.sealed
  unfold DecodesUnder
  by_cases hcurrent : version = SPEC_VERSION
  · subst hcurrent
    rw [decodeSignature_current hsealed hsignature] at hdecoded
    rw [if_pos (by decide)]
    exact ⟨raw, eq_of_base64urlToBytes hdecoded⟩
  · rw [decodeSignature_earlier hsealed hcurrent hsignature] at hdecoded
    have hbytes := toOption_eq_some hdecoded
    by_cases hsession : version ∈ SESSION_VERSIONS
    · obtain rfl := version_cases hsession hcurrent
      rw [if_pos hsession]
      exact url_of_base64ToBytes (Pattern.allows_of_test _ _ (signature_of_version03 h hsignature)) hbytes
    · rw [if_neg hsession]
      exact padded_of_base64ToBytes hbytes

end

section

variable {P : Primitives} {inputs : VerifyInputs} {i : Nat} {record : StoredRecord}

-- A record whose event the checker accepts is not reported by the loop, whatever stands around it.
theorem walk_signature {records : List StoredRecord} {walk : Walk} (hrecord : records[i]? = some record)
    (haccepted : SignatureFinds inputs record [])
    (h : records.foldlM (verifyRecord P inputs) Walk.start = .ok walk) :
    ∀ issue ∈ walk.issues, ¬issue.concerns .signatureInvalid i := by
  refine (foldlM_ok_invariant (fun done walk => walk.index = done.length ∧
    ∀ issue ∈ walk.issues, ¬issue.concerns .signatureInvalid i) records ?_ ⟨rfl, by simp [Walk.start]⟩ h).2
  rintro done other rest before after hsplit ⟨hindex, hclean⟩ hstep
  have hturn : after.index = before.index + 1 ∧ ∃ new, after.issues = before.issues ++ new ∧
      ∀ issue ∈ new, ¬issue.concerns .signatureInvalid i := by
    by_cases hi : i = done.length
    · -- The record's own turn.
      have hother : other = record := by
        rw [hsplit, hi] at hrecord
        simpa using hrecord
      obtain ⟨hnext, new, hnew, hn⟩ := verifyRecord_findsWith (hother ▸ haccepted) hstep
      refine ⟨hnext, new, hnew, fun issue hm hc => ?_⟩
      have hkind := (hn issue hm).1
      rw [hc.1] at hkind
      simp [unsignedKinds, besideSignature, identityKinds] at hkind
    · obtain ⟨hnext, new, hnew, hn⟩ := verifyRecord_findsWith signatureFinds_any hstep
      refine ⟨hnext, new, hnew, fun issue hm hc => ?_⟩
      obtain ⟨-, seq, hseq⟩ := hc
      rw [(hn issue hm).2, hindex] at hseq
      exact hi (IssueSeq.record.inj hseq).1.symm
  obtain ⟨hnext, new, hnew, hn⟩ := hturn
  refine ⟨by rw [hnext, hindex]; simp, fun issue hm => ?_⟩
  rw [hnew] at hm
  exact (List.mem_append.mp hm).elim (hclean issue) (hn issue)

theorem verifyChain_signature {records : List StoredRecord} {report : VerifyReport}
    (hrecord : records[i]? = some record) (haccepted : SignatureFinds inputs record [])
    (h : verifyChain P records inputs = .ok report) :
    ∀ issue ∈ report.issues, ¬issue.concerns .signatureInvalid i := by
  obtain ⟨walk, events, gaps, digest, hv⟩ := verifyChain_verified h
  intro issue hi
  rw [hv.issues] at hi
  rcases List.mem_append.mp hi with hi | hd
  · rcases List.mem_append.mp hi with hw | hg
    · exact walk_signature hrecord haccepted hv.walked issue hw
    · obtain ⟨gap, -, rfl⟩ := List.mem_map.mp hg
      simp [VerifyIssue.concerns, gapIssue]
  · rintro ⟨hkind, -⟩
    rw [((digestIssues_kind hv.compared).1 issue hd).1] at hkind
    cases hkind

-- The checks of structure and of the order of versions find nothing but `schema-invalid`.
theorem checkVersion_kinds {reported : List IssueSeq} {before after : VersionWalk}
    (h : checkVersion P inputs reported before record = .ok after)
    (hbefore : ∀ issue ∈ before.issues, issue.kind = .schemaInvalid) :
    ∀ issue ∈ after.issues, issue.kind = .schemaInvalid := by
  obtain ⟨inner, -, h⟩ := bind_ok h
  obtain ⟨structural, -, h⟩ := bind_ok h
  dsimp only at h
  split at h
  · split at h
    · obtain rfl := pure_ok h
      exact hbefore
    · obtain rfl := pure_ok h
      intro issue hi
      rcases List.mem_append.mp hi with hm | hm
      · exact hbefore issue hm
      · rw [List.mem_singleton.mp hm]
  · obtain rfl := pure_ok h
    exact hbefore

theorem verifyLedger_signature {records : List StoredRecord} {report : VerifyReport}
    (hrecord : records[i]? = some record) (haccepted : SignatureFinds inputs record [])
    (h : verifyLedger P records inputs = .ok report) :
    ∀ issue ∈ report.issues, ¬issue.concerns .signatureInvalid i := by
  obtain ⟨first, hfirst, h⟩ := bind_ok h
  obtain ⟨versions, hversions, h⟩ := bind_ok h
  have hclean := verifyChain_signature hrecord haccepted hfirst
  have hkinds : ∀ issue ∈ versions.issues, issue.kind = .schemaInvalid :=
    foldlM_ok_invariant (fun _ versions => ∀ issue ∈ versions.issues, issue.kind = .schemaInvalid) records
      (fun _ _ _ _ _ _ hbefore hstep => checkVersion_kinds hstep hbefore) (by simp) hversions
  split at h
  · obtain rfl := pure_ok h
    exact hclean
  · obtain rfl := pure_ok h
    intro issue hi
    rcases List.mem_append.mp hi with hm | hm
    · exact hclean issue hm
    · rintro ⟨hkind, -⟩
      rw [hkinds issue hm] at hkind
      cases hkind

end

-- A genuine signature verifies under every version but 0.3, whose signatures are written in
-- one encoding and read in the other. One that does not decode is refused under them all.
theorem signature_verifies_iff {P : Primitives} {verifier : KeyRegistryVerifier} {version keyId signature : JsString}
    {event : Json} {entry : RegisteredKey} (hvalid : ValidUnder version event)
    (hkey : event.get Fields.KEY_ID = some (.str keyId)) (hentry : verifier.registry.get keyId = some entry)
    (hsignature : event.get Fields.SIGNATURE = some (.str signature)) :
    (∀ raw payload, raw.length = 64 → signature = encodeSignature version raw →
      signaturePayload P event = .ok payload →
      verifier.engines.verify entry.algorithm payload raw entry.publicKey = .ok true →
      ((verifier.check P event = true ∧
        ∀ records inputs report i record, inputs.signatureChecker = some (fun event => .ok (verifier.check P event)) →
          verifyLedger P records inputs = .ok report → records[i]? = some record →
          inputs.adapter.eventOf record.event = .ok (some event) →
          ∀ issue ∈ report.issues, ¬issue.concerns .signatureInvalid i) ↔
        version ≠ "auditable-mcp/0.3")) ∧
      (¬DecodesUnder version signature → verifier.check P event = false) := by
  have hsealed := hvalid.sealed
  refine ⟨fun raw payload hlength hencoded hpayload haccepts => ⟨?_, fun hversion => ?_⟩, fun hno => ?_⟩
  · rintro ⟨hcheck, -⟩ rfl
    obtain ⟨decoded, -, hdecoded, -⟩ := (check_eq_true_iff hkey hentry).mp hcheck
    have hurl : event.get Fields.SIGNATURE = some (.str (bytesToBase64url raw)) := by
      rw [hsignature, hencoded, encodeSignature, if_pos (by decide)]
    rw [decodeSignature_version03 hsealed hlength hurl] at hdecoded
    cases hdecoded
  · have hdecoded := decodeSignature_encoded hsealed hversion (hencoded ▸ hsignature)
    have hcheck := (check_eq_true_iff hkey hentry).mpr ⟨raw, payload, hdecoded, hlength, hpayload, haccepts⟩
    refine ⟨hcheck, fun records inputs report i record hchecker hreport hrecord hevent => ?_⟩
    exact verifyLedger_signature hrecord (signatureFinds_none hevent hchecker (by rw [hcheck])) hreport
  · cases hcheck : verifier.check P event with
    | false => rfl
    | true =>
        obtain ⟨raw, -, hdecoded, -⟩ := (check_eq_true_iff hkey hentry).mp hcheck
        exact absurd (decodesUnder_of_decodeSignature hvalid hsignature hdecoded) hno

section

open Reference

def TOOL_KEY : JsString := "tool-key-1"

def toolPublicKey : List UInt8 :=
  [215, 90, 152, 1, 130, 177, 10, 183, 213, 75, 254, 211, 201, 100, 7, 58, 14, 225, 114, 243, 218, 166, 35, 37,
   175, 2, 26, 104, 247, 7, 81, 26]

-- An attempt of a version, the first its key signed in the session.
def signedAttempt (version : JsString) (raw : List UInt8) : Json :=
  eventOf version (Fields.SESSION_ID, .str SESSION_A) EVENT_1 Outcome.ATTEMPTED
    (signedUnder TOOL_KEY 0 (encodeSignature version raw))

-- The Ed25519 signatures the key makes over these attempts.
def rawCurrent : List UInt8 :=
  [116, 232, 36, 151, 177, 12, 131, 247, 193, 160, 244, 190, 188, 167, 110, 108, 134, 197, 180, 199, 241, 113,
   136, 226, 127, 93, 11, 140, 87, 16, 51, 176, 228, 48, 128, 109, 190, 94, 136, 116, 185, 48, 49, 124, 184,
   195, 41, 151, 7, 29, 224, 153, 133, 37, 156, 61, 59, 234, 210, 72, 156, 39, 9, 10]

def rawVersion03 : List UInt8 :=
  [17, 249, 254, 199, 16, 239, 47, 160, 95, 250, 70, 182, 75, 86, 52, 165, 213, 63, 208, 230, 4, 203, 106, 40,
   159, 131, 40, 157, 64, 135, 128, 171, 37, 189, 183, 140, 142, 219, 114, 252, 227, 187, 15, 81, 208, 121,
   142, 17, 89, 52, 103, 125, 191, 138, 39, 239, 75, 34, 31, 68, 21, 243, 137, 0]

-- A verifier that knows the key, over Ed25519 as it answers on one genuine signature.
def knowing (event : Json) (raw : List UInt8) : KeyRegistryVerifier where
  registry := ⟨.TOOL, OrderedMap.empty.set TOOL_KEY ⟨.ED25519, toolPublicKey⟩, []⟩
  engines :=
    { ed25519Verify := fun message signature publicKey =>
        .ok (message = encodeUtf8 (jcs (withoutSignature event)) ∧ signature = raw ∧ publicKey = toolPublicKey)
      ecdsaVerify := fun _ _ _ => .ok false }
  toolKeys := rfl

theorem signedAttempt_verifies :
    (knowing (signedAttempt SPEC_VERSION rawCurrent) rawCurrent).check primitives
      (signedAttempt SPEC_VERSION rawCurrent) = true := by
  have hvalid : ValidUnder SPEC_VERSION (signedAttempt SPEC_VERSION rawCurrent) :=
    ⟨by decide, by decide +kernel⟩
  have hentry : (knowing (signedAttempt SPEC_VERSION rawCurrent) rawCurrent).registry.get TOOL_KEY =
      some ⟨.ED25519, toolPublicKey⟩ := rfl
  have hiff := (signature_verifies_iff (P := primitives) hvalid rfl hentry rfl).1 rawCurrent
    (encodeUtf8 (jcs (withoutSignature (signedAttempt SPEC_VERSION rawCurrent)))) rfl rfl
    (by rw [signaturePayload, canonicalize_of_canonicalizable primitives (by decide +kernel)]; rfl)
    (by simp [Engines.verify, knowing])
  exact (hiff.mpr (by decide)).1

-- A genuine signature of a v0.3 event does not verify.
theorem version03_refused : ¬∀ (verifier : KeyRegistryVerifier) (version keyId signature : JsString) (event : Json)
    (entry : RegisteredKey) (raw payload : List UInt8), ValidUnder version event →
      event.get Fields.KEY_ID = some (.str keyId) → verifier.registry.get keyId = some entry →
      event.get Fields.SIGNATURE = some (.str signature) → raw.length = 64 →
      signature = encodeSignature version raw → signaturePayload primitives event = .ok payload →
      verifier.engines.verify entry.algorithm payload raw entry.publicKey = .ok true →
      verifier.check primitives event = true := by
  intro h
  have hcheck := h (knowing (signedAttempt "auditable-mcp/0.3" rawVersion03) rawVersion03) "auditable-mcp/0.3" TOOL_KEY _
    (signedAttempt "auditable-mcp/0.3" rawVersion03) _ rawVersion03
    (encodeUtf8 (jcs (withoutSignature (signedAttempt "auditable-mcp/0.3" rawVersion03))))
    ⟨by decide, by decide +kernel⟩ rfl rfl rfl rfl rfl
    (by rw [signaturePayload, canonicalize_of_canonicalizable primitives (by decide +kernel)]; rfl)
    (by simp [Engines.verify, knowing])
  exact absurd hcheck (by decide +kernel)

end

end AuditableMcp
