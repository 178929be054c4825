import AuditableMcp.Host.State

namespace AuditableMcp

-- What the injected dependencies do during one call. An append stores the record or
-- not, and independently of that may throw.
inductive LoadTail where
  | reads
  | repositoryError
  | fails (error : JsError)

inductive Append where
  | stores
  | storesAndThrows
  | throws

structure Answers where
  loadTail : LoadTail
  verdict : Except JsError (Option RejectReason)
  now : JsString
  sign : Except JsError JsString
  append : Append

def eventId (event : Json) : JsString :=
  match event.get Fields.ID with
  | some (.str id) => id
  | _ => "<unknown>"

def digestOf (P : Primitives) (event : Json) : Except JsError JsString := do
  let canonical ← canonicalize P event
  return sha256Hex P canonical

-- The number an event was signed under.
def numberOf (event : Json) : Option (JsString × JsNum) :=
  match event.get Fields.KEY_ID, event.get Fields.SIGNER_SEQ with
  | some (.str keyId), some (.num signerSeq) => some (keyId, signerSeq)
  | _, _ => none

-- The response of `accept`: the countersignature's three fields or none of them.
def accept (seq : Nat) (recordHash : JsString) (hostTs : Option Json) (previousHash : JsString)
    (hostSignature hostKeyId logId : Option JsString) : AttemptResponse :=
  match hostSignature, hostKeyId, logId with
  | some signature, some keyId, some log =>
      .accept ⟨seq, recordHash, hostTs, previousHash, some signature, some keyId, some log⟩
  | _, _, _ => .accept ⟨seq, recordHash, hostTs, previousHash, none, none, none⟩

def acceptOf (record : SealedRecord) : AttemptResponse :=
  accept record.seq record.record_hash record.host_ts record.previous_hash record.host_signature
    record.host_key_id record.log_id

namespace AuditHost

def flag (host : AuditHost) (id : JsString) (kind : Tier1Code) (detail : AnomalyDetail) : AuditHost :=
  { host with anomalies := host.anomalies ++ [⟨id, kind, detail⟩] }

def modifySession (host : AuditHost) (sessionId : JsString) (change : Session → Session) : AuditHost :=
  match host.sessions.get sessionId with
  | some session => { host with sessions := host.sessions.set sessionId (change session) }
  | none => host

def acceptId (host : AuditHost) (sessionId id : JsString) : AuditHost :=
  host.modifySession sessionId fun session => { session with accepted := addTo session.accepted id }

def rejectId (host : AuditHost) (id : JsString) : AuditHost :=
  { host with rejectedIds := addTo host.rejectedIds id }

def noteSealed (host : AuditHost) (record : SealedRecord) (digest : JsString) : AuditHost :=
  let host := { host with sealedDigests := addTo host.sealedDigests digest }
  if isAttempted record.event then
    { host with sealedAttempts := host.sealedAttempts.set (eventId record.event) record }
  else host

def remember (P : Primitives) (host : AuditHost) (record : SealedRecord) : Except JsError AuditHost := do
  let digest ← digestOf P record.event
  return host.noteSealed record digest

-- What `#checkReplay` and `#decide` read of an event: nothing below Level 2.
def signedNumber (host : AuditHost) (event : Json) : Option (JsString × JsNum) :=
  if host.config.capability.level ≠ .L2 then none else numberOf event

def decideNumber (keyId : JsString) (signerSeq : JsNum) (session : Session) : Session :=
  { session with decided := session.decided.set keyId (addTo ((session.decided.get keyId).getD []) signerSeq) }

def decide (host : AuditHost) (event : Json) (sessionId : JsString) : AuditHost :=
  match host.signedNumber event with
  | some (keyId, signerSeq) => host.modifySession sessionId (decideNumber keyId signerSeq)
  | none => host

def checkReplay (P : Primitives) (host : AuditHost) (event : Json) (sessionId : JsString) :
    AuditHost × Option RejectReason :=
  match host.signedNumber event, host.sessions.get sessionId with
  | some (keyId, signerSeq), some session =>
      if signerSeq ∈ (session.decided.get keyId).getD [] then
        (host.flag (eventId event) .replayDetected (.text
          ("signer_seq " ++ P.numberToString signerSeq ++ " was already decided")), some .replayDetected)
      else (host, none)
  | _, _ => (host, none)

end AuditHost

-- The tail as `#settleTail` reads it is the one the host already has.
def tailUnchanged (tail : Option SealedRecord) (ledger : Ledger) : Bool :=
  match tail with
  | none => ledger.count = 0
  | some record => record.seq + 1 = ledger.count && record.record_hash = ledger.digest

-- Adopt a record that landed although its append failed.
def adopt (P : Primitives) (host : AuditHost) (tail : SealedRecord) : AuditHost × Except JsError Bool :=
  let host := { host with ledger := host.ledger.commit tail }
  match host.remember P tail with
  | .error e => (host, .error e)
  | .ok host =>
      match stringOfOption P (tail.event.get Fields.SESSION_ID) with
      | .error e => (host, .error e)
      | .ok sessionId =>
          let host :=
            if isAttempted tail.event then host.acceptId sessionId (eventId tail.event) else host
          ({ host with tailUncertain := false }, .ok true)

def settleTail (P : Primitives) (answer : LoadTail) (w : World) : World × Except JsError Bool :=
  match answer with
  | .repositoryError => (w, .ok false)
  | .fails error => (w, .error error)
  | .reads =>
      let tail := w.stored.getLast?
      if tailUnchanged tail w.host.ledger then
        ({ w with host := { w.host with tailUncertain := false } }, .ok true)
      else
        match tail with
        | none => (w, .ok false)
        | some record =>
            if record.seq ≠ w.host.ledger.count ∨ record.previous_hash ≠ w.host.ledger.digest then
              (w, .ok false)
            else
              let (host, result) := adopt P w.host record
              ({ w with host }, result)

def chainKnown (P : Primitives) (answers : Answers) (w : World) : World × Except JsError Bool :=
  if !w.host.tailUncertain || !w.host.config.repository then (w, .ok true)
  else settleTail P answers.loadTail w

-- The record the host is about to persist, with its countersignature where it declares one.
def prepare (P : Primitives) (answers : Answers) (event : Json) (host : AuditHost) :
    Except JsError (Option SealedRecord) := do
  let record ← host.ledger.sealRecord P event (some (.str answers.now))
  match host.config.countersigner with
  | none => return some record
  | some keyId =>
      let _ ← countersignaturePayload P (some (.num (.ofNat record.seq))) record.host_ts
        (some (.str host.config.logId)) (some (.str record.previous_hash)) (some (.str record.record_hash))
      match answers.sign with
      | .error _ => return none
      | .ok signature => return some { record with
          host_signature := some signature, host_key_id := some keyId, log_id := some host.config.logId }

def nextSeq (stored : List SealedRecord) : Nat :=
  match stored.getLast? with
  | some record => record.seq + 1
  | none => 0

-- `LedgerRepository.append`: what is stored afterwards, and whether it threw.
def appendRecord (answer : Append) (stored : List SealedRecord) (record : SealedRecord) :
    List SealedRecord × Bool :=
  if record.seq ≠ nextSeq stored then (stored, true)
  else
    match answer with
    | .stores => (stored ++ [record], false)
    | .storesAndThrows => (stored ++ [record], true)
    | .throws => (stored, true)

-- A host without a repository has nowhere to persist a record.
def persist (answers : Answers) (w : World) (record : SealedRecord) : List SealedRecord × Bool :=
  if w.host.config.repository then appendRecord answers.append w.stored record else (w.stored, false)

-- `#seal`
def sealEvent (P : Primitives) (answers : Answers) (event : Json) (w : World) :
    World × Except JsError (Option SealedRecord) :=
  match prepare P answers event w.host with
  | .error e => (w, .error e)
  | .ok none => (w, .ok none)
  | .ok (some record) =>
      match persist answers w record with
      | (stored, true) => (⟨{ w.host with tailUncertain := true }, stored⟩, .ok none)
      | (stored, false) =>
          let host := { w.host with ledger := w.host.ledger.commit record }
          match host.remember P record with
          | .error e => (⟨host, stored⟩, .error e)
          | .ok host => (⟨host, stored⟩, .ok (some record))

namespace AuditHost

-- The session the event names, where it is open and the one the call carries.
def sessionOf (P : Primitives) (host : AuditHost) (event : Json) (expected : Option JsString) :
    AuditHost × Except JsError (Option JsString) :=
  let sessionId := event.get Fields.SESSION_ID
  let open? : Option JsString :=
    match sessionId with
    | some (.str id) => if host.sessions.has id then some id else none
    | _ => none
  match open? with
  | some id =>
      if expected = none ∨ expected = some id then (host, .ok (some id))
      else
        (host.flag (eventId event) .replayDetected (.text
          ("session " ++ id ++ " is not the one this call carries (§6.3)")), .ok none)
  | none =>
      match stringOfOption P sessionId with
      | .error e => (host, .error e)
      | .ok text =>
          (host.flag (eventId event) .replayDetected (.text
            ("session " ++ text ++ " is not the one this call carries (§6.3)")), .ok none)

inductive Admission where
  | session (id : JsString)
  | rejected (reason : RejectReason)

def admitEvent (P : Primitives) (host : AuditHost) (event : Json) (expected : Option JsString) (attempt : Bool) :
    AuditHost × Except JsError Admission :=
  match firstValidationError (some event) with
  | some error =>
      match event with
      -- `eventId(null)` reads a property of null.
      | .null => (host, .error .typeError)
      | _ => (host.flag (eventId event) .schemaInvalid (.validation error), .ok (.rejected .schemaInvalid))
  | none =>
      if hasUnsafeNumber event then
        (host.flag (eventId event) .schemaInvalid (.text "a numeric value is not canonicalizable (§8.1)"),
          .ok (.rejected .schemaInvalid))
      else if isAttempted event ≠ attempt then
        (host.flag (eventId event) .schemaInvalid (.text
          (if attempt then "an attempt must carry outcome=attempted"
           else "an outcome carried outcome=attempted (§6)")), .ok (.rejected .schemaInvalid))
      else
        match host.sessionOf P event expected with
        | (host, .error e) => (host, .error e)
        | (host, .ok (some id)) => (host, .ok (.session id))
        | (host, .ok none) => (host, .ok (.rejected .replayDetected))

def isTruthy : Option Json → Bool
  | none => false
  | some .null => false
  | some (.bool b) => b
  | some (.num .nan) => false
  | some (.num (.fin value)) => value ≠ 0
  | some (.str s) => s.length ≠ 0
  | some _ => true

-- The key and number of an event that carries what Level 2 requires.
def level2Fields (event : Json) : Option (JsString × JsNum) :=
  match event.get Fields.KEY_ID, event.get Fields.SIGNER_SEQ with
  | some (.str keyId), some (.num signerSeq) =>
      if isTruthy (event.get Fields.SIGNATURE) && signerSeq.isInteger then some (keyId, signerSeq) else none
  | _, _ => none

-- The number an event is expected to carry at most: one past the highest received.
def expectedNumber (received : Option JsNum) : JsNum :=
  match received with
  | none => .ofNat 0
  | some highest => highest.succ

def receivedNumber (host : AuditHost) (sessionId keyId : JsString) : Option JsNum :=
  (host.sessions.get sessionId).bind fun session => session.received.get keyId

def gapFlagged (P : Primitives) (host : AuditHost) (event : Json) (received : Option JsNum) (signerSeq : JsNum) :
    AuditHost :=
  if (expectedNumber received).lt signerSeq then
    host.flag (eventId event) .signerSeqGap (.text ("expected signer_seq " ++
      P.numberToString (expectedNumber received) ++ ", got " ++ P.numberToString signerSeq))
  else host

-- A verifying event counts as received, and one past the expected number is flagged.
def receive (P : Primitives) (host : AuditHost) (event : Json) (sessionId keyId : JsString) (signerSeq : JsNum) :
    AuditHost :=
  let received := host.receivedNumber sessionId keyId
  let host := host.gapFlagged P event received signerSeq
  if received = none ∨ received.any (·.lt signerSeq) then
    host.modifySession sessionId fun session =>
      { session with received := session.received.set keyId signerSeq }
  else host

def verifySignature (P : Primitives) (answers : Answers) (host : AuditHost) (event : Json)
    (sessionId : JsString) : AuditHost × Except JsError (Option RejectReason) :=
  if host.config.capability.level ≠ .L2 then (host, .ok none)
  else
    match level2Fields event with
    | none =>
        (host.flag (eventId event) .signatureInvalid (.text "L2 requires signature, key_id, and signer_seq"),
          .ok (some .l2Unsigned))
    | some (keyId, signerSeq) =>
        match answers.verdict with
        | .error e => (host, .error e)
        | .ok (some reason) =>
            (host.flag (eventId event) .signatureInvalid (.text
              ("signature verification failed (" ++ reason.code.text ++ ")")), .ok (some reason))
        | .ok none => (host.receive P event sessionId keyId signerSeq, .ok none)

end AuditHost

end AuditableMcp
