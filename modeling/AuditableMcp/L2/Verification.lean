import AuditableMcp.Hashing
import AuditableMcp.L2.Base64
import AuditableMcp.Library.OrderedMap

-- Level-2 verification (l2/keys.ts, l2/signing.ts, l2/verification.ts).
namespace AuditableMcp

inductive SignatureAlgorithm where
  | ED25519
  | ES256
deriving DecidableEq

inductive KeyRole where
  | TOOL
  | HOST
deriving DecidableEq

structure RegisteredKey where
  algorithm : SignatureAlgorithm
  publicKey : List UInt8

structure KeyRegistry where
  role : KeyRole
  keys : OrderedMap JsString RegisteredKey
  revoked : List JsString

namespace KeyRegistry

def isRevoked (registry : KeyRegistry) (keyId : JsString) : Bool := keyId ∈ registry.revoked

def get (registry : KeyRegistry) (keyId : JsString) : Option RegisteredKey := registry.keys.get keyId

end KeyRegistry

-- The verification primitives (noble by default), over a message, a signature and a public key.
structure Engines where
  ed25519Verify : List UInt8 → List UInt8 → List UInt8 → Except JsError Bool
  ecdsaVerify : List UInt8 → List UInt8 → List UInt8 → Except JsError Bool

-- The event without its `signature`. Assigning to `__proto__` creates no member.
def withoutSignature : Json → Json
  | .obj members => .obj (members.filter fun entry => entry.1 ≠ Fields.SIGNATURE ∧ entry.1 ≠ "__proto__")
  | value => value

def signaturePayload (P : Primitives) (event : Json) : Except JsError (List UInt8) := do
  let canonical ← canonicalize P (withoutSignature event)
  return encodeUtf8 canonical

def ES256_SIGNATURE_BYTES : Nat := 64

def RAW_SIGNATURE_BYTES : SignatureAlgorithm → Nat
  | .ED25519 => 64
  | .ES256 => ES256_SIGNATURE_BYTES

def decodeSignature (event : Json) : Option (List UInt8) :=
  let encoded := event.get Fields.SIGNATURE
  if isEarlierSpecVersion (event.get Fields.SPEC_VERSION) then
    match encoded with
    | some (.str text) => (base64ToBytes text).toOption
    | _ => none
  else base64urlToBytes encoded

-- A primitive that throws verifies nothing.
def verifyRaw (algorithm : SignatureAlgorithm) (signature : List UInt8) (verify : Except JsError Bool) : Bool :=
  if signature.length ≠ RAW_SIGNATURE_BYTES algorithm then false
  else
    match verify with
    | .ok valid => valid
    | .error _ => false

-- What the two algorithms' checks share.
def verifyEventSignature (algorithm : SignatureAlgorithm) (P : Primitives) (event : Json) (publicKey : List UInt8)
    (verify : List UInt8 → List UInt8 → List UInt8 → Except JsError Bool) : Bool :=
  match decodeSignature event with
  | none => false
  | some signature => verifyRaw algorithm signature do
      let payload ← signaturePayload P event
      verify payload signature publicKey

def verifyEd25519Signature := verifyEventSignature .ED25519

def verifyEcdsaSignature := verifyEventSignature .ES256

-- A verifier holds tool keys only.
structure KeyRegistryVerifier where
  registry : KeyRegistry
  engines : Engines
  toolKeys : registry.role = .TOOL

namespace KeyRegistryVerifier

def new (registry : KeyRegistry) (engines : Engines) : Except JsError KeyRegistryVerifier :=
  if h : registry.role = .TOOL then .ok ⟨registry, engines, h⟩
  else .error (.error "a Level-2 verifier needs a tool-key registry (§10.9)")

variable (P : Primitives) (verifier : KeyRegistryVerifier) (event : Json)

def rejectReason (includeRevoked : Bool) : Option RejectReason :=
  match event.get Fields.KEY_ID with
  | some (.str keyId) =>
      match verifier.registry.get keyId with
      | none => some .unknownKey
      | some entry =>
          if !includeRevoked && verifier.registry.isRevoked keyId then some .unknownKey
          else
            let verified :=
              match entry.algorithm with
              | .ED25519 => verifyEd25519Signature P event entry.publicKey verifier.engines.ed25519Verify
              | .ES256 => verifyEcdsaSignature P event entry.publicKey verifier.engines.ecdsaVerify
            if verified then none else some .signatureInvalid
  | _ => some .unknownKey

-- The ledger verifier's check, revoked keys included.
def check : Bool := verifier.rejectReason P event true = none

-- The host's check.
def verify : Option RejectReason := verifier.rejectReason P event false

end KeyRegistryVerifier

-- The primitive an algorithm is bound to.
def Engines.verify (engines : Engines) : SignatureAlgorithm → List UInt8 → List UInt8 → List UInt8 → Except JsError Bool
  | .ED25519 => engines.ed25519Verify
  | .ES256 => engines.ecdsaVerify

section

variable {P : Primitives} {verifier : KeyRegistryVerifier} {event : Json} {keyId : JsString} {entry : RegisteredKey}

theorem RAW_SIGNATURE_BYTES_eq (algorithm : SignatureAlgorithm) : RAW_SIGNATURE_BYTES algorithm = 64 := by
  cases algorithm <;> rfl

theorem verifyEventSignature_eq_true_iff {algorithm : SignatureAlgorithm} {publicKey : List UInt8}
    {verify : List UInt8 → List UInt8 → List UInt8 → Except JsError Bool} :
    verifyEventSignature algorithm P event publicKey verify = true ↔
      ∃ raw payload, decodeSignature event = some raw ∧ raw.length = 64 ∧
        signaturePayload P event = .ok payload ∧ verify payload raw publicKey = .ok true := by
  unfold verifyEventSignature
  cases hdecoded : decodeSignature event with
  | none => simp
  | some raw =>
      simp only [verifyRaw, RAW_SIGNATURE_BYTES_eq, Option.some.injEq, exists_and_left, exists_eq_left']
      by_cases hlength : raw.length = 64
      · rw [if_neg (not_not.mpr hlength)]
        cases signaturePayload P event with
        | error e => simp [bind, Except.bind]
        | ok payload =>
            simp only [bind, Except.bind, hlength, true_and, Except.ok.injEq, exists_eq_left']
            cases verify payload raw publicKey <;> simp
      · rw [if_pos hlength]
        simp [hlength]

-- A registered key's event passes where the primitive of its algorithm accepts the 64 bytes
-- its signature decodes to.
theorem check_eq_true_iff (hkey : event.get Fields.KEY_ID = some (.str keyId))
    (hentry : verifier.registry.get keyId = some entry) :
    verifier.check P event = true ↔ ∃ raw payload, decodeSignature event = some raw ∧ raw.length = 64 ∧
      signaturePayload P event = .ok payload ∧
      verifier.engines.verify entry.algorithm payload raw entry.publicKey = .ok true := by
  have hverified : (match entry.algorithm with
      | .ED25519 => verifyEd25519Signature P event entry.publicKey verifier.engines.ed25519Verify
      | .ES256 => verifyEcdsaSignature P event entry.publicKey verifier.engines.ecdsaVerify) =
      verifyEventSignature entry.algorithm P event entry.publicKey (verifier.engines.verify entry.algorithm) := by
    cases entry.algorithm <;> rfl
  rw [← verifyEventSignature_eq_true_iff, ← hverified]
  unfold KeyRegistryVerifier.check KeyRegistryVerifier.rejectReason
  simp only [hkey, hentry, Bool.not_true, Bool.false_and, Bool.false_eq_true, ite_false, decide_eq_true_eq]
  split <;> split <;> simp_all

end

end AuditableMcp
