import AuditableMcp.Events
import AuditableMcp.Ledger
import AuditableMcp.Library.OrderedMap

namespace AuditableMcp

structure AuditCapability where
  spec_version : JsString
  level : Level
  countersign : Countersign

structure AuditCapabilityInput where
  spec_version : Option JsString
  level : Option Level
  countersign : Option Countersign

-- What is injected into a host. A verifier, a clock and a repository show themselves
-- in what they answer, call by call; here it counts whether they are there.
structure AuditHostOptions where
  verifier : Bool
  countersigner : Option JsString
  logId : Option JsString
  repository : Bool

-- A host's fixed part. The constructor refuses the combinations the last two fields exclude.
structure HostConfig where
  partition : JsString
  logId : JsString
  capability : AuditCapability
  verifier : Bool
  countersigner : Option JsString
  repository : Bool
  l2Verifies : capability.level = .L2 → verifier = true
  countersigns : capability.countersign = .host ↔ countersigner.isSome = true

-- The checks of `new AuditHost(partition, capability, options)`.
def HostConfig.construct (partition : JsString) (input : AuditCapabilityInput) (options : AuditHostOptions) :
    Except JsError HostConfig :=
  let resolved : AuditCapability :=
    { spec_version := input.spec_version.getD SPEC_VERSION
      level := input.level.getD .L1
      countersign := input.countersign.getD .none }
  if resolved.spec_version.length = 0 then .error .zodError
  else if hl2 : resolved.level = .L2 ∧ options.verifier = false then
    .error (.error "an L2 host requires a SignatureVerifier")
  else if hhost : resolved.countersign = .host ∧ options.countersigner = none then
    .error (.error "a host declaring countersign \"host\" requires a Countersigner")
  else if hnone : resolved.countersign = .none ∧ options.countersigner ≠ none then
    .error (.error "a host declaring countersign \"none\" must not hold a Countersigner")
  else .ok
    { partition
      logId := options.logId.getD partition
      capability := resolved
      verifier := options.verifier
      countersigner := options.countersigner
      repository := options.repository
      l2Verifies := fun h => by simpa [h] using hl2
      countersigns := by
        cases hc : resolved.countersign with
        | none => simpa [hc] using hnone
        | host => simpa [hc, Option.isSome_iff_ne_none] using hhost }

-- The tracked state of one audit session (host.ts, `Session`).
structure Session where
  decided : OrderedMap JsString (List JsNum)
  received : OrderedMap JsString JsNum
  accepted : List JsString
  terminal : OrderedMap JsString JsString

def Session.new : Session := ⟨.empty, .empty, [], .empty⟩

inductive AnomalyDetail where
  | validation (error : ValidationError)
  | text (detail : JsString)
deriving DecidableEq

structure IntegrityAnomaly where
  id : JsString
  kind : Tier1Code
  detail : AnomalyDetail
deriving DecidableEq

structure AuditHost where
  config : HostConfig
  persistenceAvailable : Bool
  ledger : Ledger
  sessions : OrderedMap JsString Session
  issued : List JsString
  tailUncertain : Bool
  sealedAttempts : OrderedMap JsString SealedRecord
  sealedDigests : List JsString
  rejectedIds : List JsString
  anomalies : List IntegrityAnomaly

def AuditHost.new (config : HostConfig) : AuditHost where
  config
  persistenceAvailable := true
  ledger := Ledger.new
  sessions := .empty
  issued := []
  tailUncertain := false
  sealedAttempts := .empty
  sealedDigests := []
  rejectedIds := []
  anomalies := []

-- A host and the records its repository holds for its partition.
structure World where
  host : AuditHost
  stored : List SealedRecord

-- The partition's chain: the stored one, or the host's own where it has no repository.
def World.chain (w : World) : List SealedRecord :=
  if w.host.config.repository then w.stored else w.host.ledger.records

structure AcceptResponse where
  seq : Nat
  record_hash : JsString
  host_ts : Option Json
  previous_hash : JsString
  host_signature : Option JsString
  host_key_id : Option JsString
  log_id : Option JsString

inductive AttemptResponse where
  | accept (response : AcceptResponse)
  | reject (reason : RejectReason)
  | unavailable

inductive OutcomeDisposition where
  | sealed
  | repeated
  | refused
  | notRecorded
deriving DecidableEq

end AuditableMcp
