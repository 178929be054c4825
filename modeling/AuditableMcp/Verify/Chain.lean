import AuditableMcp.Host.State
import AuditableMcp.Verify.Accounting

namespace AuditableMcp

-- A record as it may come back from storage: nothing about its members is certain.
structure StoredRecord where
  event : Option Json
  seq : Option Json
  host_ts : Option Json
  previous_hash : Option Json
  record_hash : Option Json
  host_signature : Option Json
  host_key_id : Option Json
  log_id : Option Json

def SealedRecord.toStored (record : SealedRecord) : StoredRecord where
  event := some record.event
  seq := some (.num (.ofNat record.seq))
  host_ts := record.host_ts
  previous_hash := some (.str record.previous_hash)
  record_hash := some (.str record.record_hash)
  host_signature := record.host_signature.map .str
  host_key_id := record.host_key_id.map .str
  log_id := record.log_id.map .str

structure RecordAdapter where
  idOf : Option Json → Except JsError (Option Json)
  isAttempt : Option Json → Except JsError Bool
  sessionOf : Option (Option Json → Except JsError (Option Json))
  eventOf : Option Json → Except JsError (Option Json)
  principalOf : Option (Option Json → Except JsError (Option Json))

-- `event[key]`, which throws where there is no object to read from.
def readMember (key : JsString) : Option Json → Except JsError (Option Json)
  | none => .error .typeError
  | some .null => .error .typeError
  | some value => .ok (value.get key)

def DEFAULT_ADAPTER : RecordAdapter where
  idOf := readMember Fields.ID
  isAttempt := fun event => do return Json.isText (← readMember Fields.OUTCOME event) Outcome.ATTEMPTED
  sessionOf := some (readMember Fields.SESSION_ID)
  eventOf := .ok
  principalOf := some fun _ => .ok none

-- `accessor?.(event)`
def callOptional (accessor : Option (Option Json → Except JsError (Option Json))) (event : Option Json) :
    Except JsError (Option Json) :=
  match accessor with
  | some read => read event
  | none => .ok none

-- The `seq` an issue names: none for a finding about the whole ledger. The index says
-- which record's `seq` it is, where that is an object and so a reference.
inductive IssueSeq where
  | ledger
  | record (index : Nat) (seq : Option Json)

structure VerifyIssue where
  seq : IssueSeq
  kind : Tier1Code
  detail : AnomalyDetail

structure VerifyReport where
  ok : Bool
  count : Nat
  computedDigest : Option Json
  issues : List VerifyIssue
  unchecked : List JsString
  complete : Bool

structure ExpectedIdentity where
  logId : JsString
  hostKeyIds : List JsString

structure VerifyInputs where
  anchoredDigest : Option JsString
  adapter : RecordAdapter
  expectedPrincipal : Option Json
  countersignatureChecker : Option (Json → Json → List UInt8 → Except JsError Bool)
  signatureChecker : Option (Json → Except JsError Bool)
  countersignatureRequired : Bool
  expectedIdentity : Option ExpectedIdentity

-- What `verifyLedger(records, anchoredDigest)` checks with.
def VerifyInputs.anchored (anchoredDigest : Option JsString) : VerifyInputs where
  anchoredDigest
  adapter := DEFAULT_ADAPTER
  expectedPrincipal := none
  countersignatureChecker := none
  signatureChecker := none
  countersignatureRequired := false
  expectedIdentity := none

-- What the loop of `verifyChain` keeps from one record to the next.
structure Walk where
  index : Nat
  issues : List VerifyIssue
  attempted : List OperationKey
  numbered : OrderedMap NumberKey (Option Json)
  prevRecomputed : Option Json
  countersignatureUnchecked : Bool
  l2Unchecked : Bool

namespace Walk

def start : Walk := ⟨0, [], [], .empty, some (.str GENESIS_HASH), false, false⟩

def report (walk : Walk) (record : StoredRecord) (kind : Tier1Code) (detail : AnomalyDetail) : Walk :=
  { walk with issues := walk.issues ++ [⟨.record walk.index record.seq, kind, detail⟩] }

def reportIf (walk : Walk) (found : Bool) (record : StoredRecord) (kind : Tier1Code) (detail : JsString) : Walk :=
  if found then walk.report record kind (.text detail) else walk

end Walk

section

variable (P : Primitives) (inputs : VerifyInputs) (record : StoredRecord) (walk : Walk)

def checkSequence : Except JsError Walk :=
  if Json.strictEq record.seq (some (.num (.ofNat walk.index))) then .ok walk
  else do
    let seq ← stringOfOption P record.seq
    return walk.report record .seqGap (.text (JsString.ofString "expected seq " ++
      P.numberToString (.ofNat walk.index) ++ JsString.ofString ", got " ++ seq))

def checkPrincipal : Except JsError Walk :=
  match inputs.expectedPrincipal with
  | none => .ok walk
  | some expected => do
      let principal ← callOptional inputs.adapter.principalOf record.event
      if Json.strictEq principal (some expected) then return walk
      else
        let text ← stringOf P expected
        return walk.report record .principalMismatch
          (.text (JsString.ofString "record principal does not match expected " ++ text))

def countersignatureMembers : Nat :=
  ([record.host_signature, record.host_key_id, record.log_id].filter Option.isSome).length

-- Whether the countersignature stands: verified only over a record whose hash was recomputed.
def checkTriple (hashable : Bool) : Except JsError Walk :=
  if countersignatureMembers record = 0 ∧ inputs.countersignatureRequired = true then
    .ok (walk.report record .hostSignatureInvalid (.text "the record is not countersigned, and the chain must be"))
  else if countersignatureMembers record ≠ 0 ∧ countersignatureMembers record ≠ 3 then
    .ok (walk.report record .hostSignatureInvalid
      (.text "host_signature, host_key_id, and log_id must appear together or not at all"))
  else
    match hashable, record.host_signature, record.host_key_id with
    | true, some signature, some keyId =>
        match inputs.countersignatureChecker with
        | none => .ok { walk with countersignatureUnchecked := true }
        | some checker => do
            let payload ← countersignaturePayload P record.seq record.host_ts record.log_id record.previous_hash
              record.record_hash
            if ← checker keyId signature payload then return walk
            else
              let key ← stringOf P keyId
              return walk.report record .hostSignatureInvalid
                (.text (JsString.ofString "countersignature does not verify for host_key_id " ++ key))
    | _, _, _ => .ok walk

def checkIdentity : Except JsError Walk :=
  match inputs.expectedIdentity with
  | none => .ok walk
  | some expected =>
      if countersignatureMembers record ≠ 3 then
        .ok (walk.report record .principalMismatch
          (.text "the record is not countersigned, so it binds no identity"))
      else if !Json.strictEq record.log_id (some (.str expected.logId)) then do
        let log ← stringOfOption P record.log_id
        return walk.report record .principalMismatch (.text (JsString.ofString "log_id " ++ log ++
          JsString.ofString " is not the expected " ++ expected.logId))
      else do
        let key ← stringOfOption P record.host_key_id
        return walk.reportIf (key ∉ expected.hostKeyIds) record .principalMismatch (JsString.ofString "host_key_id " ++
          key ++ JsString.ofString " is not one the partition's host countersigns under")

def checkCountersignature (hashable : Bool) : Except JsError Walk := do
  let walk ← checkTriple P inputs record walk hashable
  checkIdentity P inputs record walk

-- The recomputed hash against the stored link and the stored hash.
def checkHashes (recomputed : JsString) : Walk :=
  let walk := walk.reportIf (!Json.strictEq record.previous_hash walk.prevRecomputed) record .recordHashMismatch
    "previous_hash does not link to prior record"
  walk.reportIf (!Json.strictEq record.record_hash (some (.str recomputed))) record .recordHashMismatch
    "stored record_hash != recomputed"

-- The key that pairs an attempt with its outcome: none where the record names no call.
def operationOf (inner : Option Json) : Except JsError (Option (OperationKey × Option Json)) := do
  let eventId ← inputs.adapter.idOf record.event
  match eventId with
  | none => return none
  | some .null => return none
  | some id =>
      match (innerObject inner).filter fun event => !isSessionScoped event with
      | some earlier => do
          let call ← stringOfOption P (earlier.get Fields.CALL_ID)
          let text ← stringOf P id
          return some (.call call text, eventId)
      | none => do
          let sessionId ← callOptional inputs.adapter.sessionOf record.event
          let key ← operationKey P sessionId eventId
          return some (key, eventId)

def isRefusal (inner : Option Json) : Bool :=
  match innerObject inner with
  | some event => Json.isText (event.get Fields.OUTCOME) Outcome.ABORTED
  | none => false

-- Attempt and outcome correlation: an aborted outcome with no attempt before it is a
-- sealed refusal, not an orphan.
def correlate (inner : Option Json) : Except JsError Walk := do
  match ← operationOf P inputs record inner with
  | none => return walk
  | some (operation, eventId) =>
      if ← inputs.adapter.isAttempt record.event then
        return { walk with attempted := addTo walk.attempted operation }
      else if operation ∉ walk.attempted ∧ isRefusal inner = false then
        let id ← stringOfOption P eventId
        return walk.report record .orphanedOutcome
          (.text (JsString.ofString "terminal outcome with no matching attempt in its session, id=" ++ id))
      else return walk

-- The number an event of a session is signed under, where all three members have their types.
def sessionNumber (event : Json) : Option (JsString × JsString × JsNum) :=
  match event.get Fields.KEY_ID, event.get Fields.SESSION_ID, event.get Fields.SIGNER_SEQ with
  | some (.str keyId), some (.str sessionId), some (.num signerSeq) => some (keyId, sessionId, signerSeq)
  | _, _, _ => none

-- Two sealed records sharing one number. A first record without a `seq` is stored as
-- undefined, which reads as no first record.
def checkReplayed (inner : Option Json) : Except JsError Walk :=
  match ((innerObject inner).filter fun event => isSessionScoped event).bind sessionNumber with
  | none => .ok walk
  | some (keyId, sessionId, signerSeq) =>
      let key : NumberKey := numberKey keyId sessionId signerSeq
      match walk.numbered.get key with
      | some (some first) => do
          let text ← stringOf P first
          return walk.report record .replayDetected (.text (JsString.ofString "signer_seq " ++
            P.numberToString signerSeq ++ JsString.ofString " of key " ++ keyId ++ JsString.ofString " in session " ++
            sessionId ++ JsString.ofString " is also sealed at seq " ++ text))
      | _ => .ok { walk with numbered := walk.numbered.set key record.seq }

def checkSignature (inner : Option Json) : Except JsError Walk :=
  match (innerObject inner).filter fun event => (event.get Fields.SIGNATURE).isSome with
  | none => .ok walk
  | some event =>
      match inputs.signatureChecker with
      | none => .ok { walk with l2Unchecked := true }
      | some checker => do
          if ← checker event then return walk
          else return walk.report record .signatureInvalid (.text "event signature does not verify")

end

-- The checks of a record whose hash was recomputed.
def checkHashable (P : Primitives) (inputs : VerifyInputs) (record : StoredRecord) (recomputed : JsString)
    (walk : Walk) : Except JsError Walk := do
  let walk := checkHashes record walk recomputed
  let inner ← inputs.adapter.eventOf record.event
  let walk ← correlate P inputs record walk inner
  let walk ← checkReplayed P record walk inner
  let walk ← checkPrincipal P inputs record walk
  let walk ← checkSignature inputs record walk inner
  let walk ← checkCountersignature P inputs record walk true
  return { walk with index := walk.index + 1, prevRecomputed := some (.str recomputed) }

-- A record that cannot be canonicalized is a finding, and the next one is expected to
-- link to the hash this one stored.
def checkUnhashable (P : Primitives) (inputs : VerifyInputs) (record : StoredRecord) (message : JsString)
    (walk : Walk) : Except JsError Walk := do
  let walk := walk.report record .schemaInvalid (.text message)
  let walk ← checkPrincipal P inputs record walk
  let walk ← checkCountersignature P inputs record walk false
  return { walk with index := walk.index + 1, prevRecomputed := record.record_hash }

-- One turn of the loop of `verifyChain`.
def verifyRecord (P : Primitives) (inputs : VerifyInputs) (walk : Walk) (record : StoredRecord) :
    Except JsError Walk := do
  let walk ← checkSequence P record walk
  match computeRecordHash P record.event record.seq record.host_ts walk.prevRecomputed with
  | .ok recomputed => checkHashable P inputs record recomputed walk
  | .error (.canonicalizationError message) => checkUnhashable P inputs record message walk
  | .error e => .error e

def gapIssue (P : Primitives) (gap : UnaccountedSignerSeq) : VerifyIssue :=
  ⟨.ledger, .signerSeqGap, .text (JsString.ofString "signer_seq " ++ P.numberToString (.ofNat gap.first) ++
    JsString.ofString ".." ++ P.numberToString (.ofNat gap.last) ++ JsString.ofString " of key " ++ gap.key_id ++
    JsString.ofString " in session " ++ gap.session_id ++ JsString.ofString " is missing")⟩

def digestIssues (P : Primitives) (anchoredDigest : Option JsString) (computedDigest : Option Json) :
    Except JsError (List VerifyIssue) :=
  match anchoredDigest with
  | none => .ok []
  | some anchored =>
      if Json.strictEq (some (.str anchored)) computedDigest then .ok []
      else do
        let computed ← stringOfOption P computedDigest
        return [⟨.ledger, .digestMismatch, .text (JsString.ofString "anchored " ++ anchored ++
          JsString.ofString " != computed " ++ computed)⟩]

def uncheckedOf (walk : Walk) : List JsString :=
  (if walk.countersignatureUnchecked then [JsString.ofString "countersignature"] else []) ++
    (if walk.l2Unchecked then [JsString.ofString "level-2-signature"] else [])

def verifyChain (P : Primitives) (records : List StoredRecord) (inputs : VerifyInputs) :
    Except JsError VerifyReport := do
  if typeOf inputs.expectedPrincipal = "object" then
    throw (.error "the expected principal is compared as a value; reduce a structured identity to a primitive (§10.10, §11.4)")
  let walk ← records.foldlM (verifyRecord P inputs) Walk.start
  let events ← records.mapM fun record => inputs.adapter.eventOf record.event
  let gaps ← unaccountedSignerSeq P events
  let digest ← digestIssues P inputs.anchoredDigest walk.prevRecomputed
  let issues := walk.issues ++ gaps.map (gapIssue P) ++ digest
  let unchecked := uncheckedOf walk
  return { ok := issues.isEmpty, count := records.length, computedDigest := walk.prevRecomputed, issues, unchecked,
           complete := issues.isEmpty && unchecked.isEmpty }

end AuditableMcp
