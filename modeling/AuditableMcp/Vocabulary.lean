import AuditableMcp.Json.Value

namespace AuditableMcp

-- The wire field names the modelled functions read (fields.ts).
namespace Fields

def ID : JsString := "id"
def SPEC_VERSION : JsString := "spec_version"
def TS : JsString := "ts"
def SESSION_ID : JsString := "session_id"
def TRACEPARENT : JsString := "traceparent"
def ACTION_TYPE : JsString := "action_type"
def MUTATES : JsString := "mutates"
def EGRESS : JsString := "egress"
def TARGET_RESOURCE : JsString := "target_resource"
def OUTCOME : JsString := "outcome"
def REASON : JsString := "reason"
def ACTION_CONTEXT : JsString := "action_context"
def ACTION_CONTEXT_HASH : JsString := "action_context_hash"
def ACTION_CONTEXT_SALTED_HASH : JsString := "action_context_salted_hash"
def SIGNER_SEQ : JsString := "signer_seq"
def KEY_ID : JsString := "key_id"
def SIGNATURE : JsString := "signature"
def CALL_ID : JsString := "call_id"
def KIND : JsString := "kind"
def REF : JsString := "ref"
def SCOPE_HINT : JsString := "scope_hint"
def STATUS : JsString := "status"
def SEQ : JsString := "seq"
def RECORD_HASH : JsString := "record_hash"
def HOST_TS : JsString := "host_ts"
def PREVIOUS_HASH : JsString := "previous_hash"
def HOST_SIGNATURE : JsString := "host_signature"
def HOST_KEY_ID : JsString := "host_key_id"
def LOG_ID : JsString := "log_id"
def RESPONSES : JsString := "responses"
def EVENTS : JsString := "events"

end Fields

-- The Tier-1 codes (reasons.ts). One type for the three code spaces, as `Tier1Code` is.
inductive Tier1Code where
  | schemaInvalid
  | replayDetected
  | signatureInvalid
  | l2Unsigned
  | unknownKey
  | internalError
  | hashMismatch
  | hostRejected
  | hostUnavailable
  | hostUncountersigned
  | hostSignatureInvalid
  | recordHashMismatch
  | digestMismatch
  | principalMismatch
  | seqGap
  | signerSeqGap
  | orphanedOutcome
  | unresolvedAttempt
  | unreportedEgress
deriving DecidableEq

def Tier1Code.text : Tier1Code → JsString
  | .schemaInvalid => "schema-invalid"
  | .replayDetected => "replay-detected"
  | .signatureInvalid => "signature-invalid"
  | .l2Unsigned => "l2-unsigned"
  | .unknownKey => "unknown-key"
  | .internalError => "internal-error"
  | .hashMismatch => "hash-mismatch"
  | .hostRejected => "host-rejected"
  | .hostUnavailable => "host-unavailable"
  | .hostUncountersigned => "host-uncountersigned"
  | .hostSignatureInvalid => "host-signature-invalid"
  | .recordHashMismatch => "record-hash-mismatch"
  | .digestMismatch => "digest-mismatch"
  | .principalMismatch => "principal-mismatch"
  | .seqGap => "seq-gap"
  | .signerSeqGap => "signer-seq-gap"
  | .orphanedOutcome => "orphaned-outcome"
  | .unresolvedAttempt => "unresolved-attempt"
  | .unreportedEgress => "unreported-egress"

-- The codes a host may return on a reject.
inductive RejectReason where
  | schemaInvalid
  | replayDetected
  | signatureInvalid
  | l2Unsigned
  | unknownKey
deriving DecidableEq

def RejectReason.code : RejectReason → Tier1Code
  | .schemaInvalid => .schemaInvalid
  | .replayDetected => .replayDetected
  | .signatureInvalid => .signatureInvalid
  | .l2Unsigned => .l2Unsigned
  | .unknownKey => .unknownKey

-- The codes a tool records on an `aborted` outcome.
inductive AbortReason where
  | hashMismatch
  | hostRejected
  | hostUnavailable
  | hostUncountersigned
  | hostSignatureInvalid
deriving DecidableEq

def AbortReason.code : AbortReason → Tier1Code
  | .hashMismatch => .hashMismatch
  | .hostRejected => .hostRejected
  | .hostUnavailable => .hostUnavailable
  | .hostUncountersigned => .hostUncountersigned
  | .hostSignatureInvalid => .hostSignatureInvalid

def AbortReason.text (reason : AbortReason) : JsString := reason.code.text

end AuditableMcp
