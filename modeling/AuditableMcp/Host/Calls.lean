import AuditableMcp.Host.Operations

namespace AuditableMcp

namespace AuditHost

-- A decision that refuses: the number is decided and the refusal recorded.
def refuseAttempt (host : AuditHost) (event : Json) (sessionId detail : JsString) : AuditHost :=
  (((host.rejectId (eventId event)).decide event sessionId).flag (eventId event) .replayDetected (.text detail))

def hasTerminal (host : AuditHost) (sessionId id : JsString) : Bool :=
  ((host.sessions.get sessionId).bind fun session => session.terminal.get id).isSome

def setTerminal (host : AuditHost) (sessionId id digest : JsString) : AuditHost :=
  host.modifySession sessionId fun session => { session with terminal := session.terminal.set id digest }

end AuditHost

abbrev World.withHost (w : World) (host : AuditHost) : World := { w with host }

def sameBytes (P : Primitives) (first second : Json) : Except JsError Bool := do
  let a ← canonicalize P first
  let b ← canonicalize P second
  return a = b

-- The last steps of `#handleAttempt`: the seal, and what an accept records.
def sealAttempt (P : Primitives) (answers : Answers) (event : Json) (sessionId : JsString) (w : World) :
    World × Except JsError AttemptResponse :=
  match sealEvent P answers event w with
  | (w, .error e) => (w, .error e)
  | (w, .ok none) => (w, .ok .unavailable)
  | (w, .ok (some record)) =>
      (w.withHost ((w.host.decide event sessionId).acceptId sessionId (eventId event)), .ok (acceptOf record))

-- `#handleAttempt` once the signature verified: uniqueness, sequence and the seal.
def decideAttempt (P : Primitives) (answers : Answers) (event : Json) (sessionId : JsString) (w : World) :
    World × Except JsError AttemptResponse :=
  match w.host.sealedAttempts.get (eventId event) with
  | some record =>
      match sameBytes P record.event event with
      | .error e => (w, .error e)
      | .ok true => (w.withHost (w.host.acceptId sessionId (eventId event)), .ok (acceptOf record))
      | .ok false =>
          (w.withHost (w.host.refuseAttempt event sessionId
            "attempt id already sealed with a different event"), .ok (.reject .replayDetected))
  | none =>
      if w.host.hasTerminal sessionId (eventId event) then
        (w.withHost (w.host.refuseAttempt event sessionId "the operation already has a sealed outcome"),
          .ok (.reject .replayDetected))
      else
        match w.host.checkReplay P event sessionId with
        | (host, some reason) =>
            (w.withHost ((host.rejectId (eventId event)).decide event sessionId), .ok (.reject reason))
        | (_, none) =>
            if !w.host.persistenceAvailable then (w, .ok .unavailable)
            else sealAttempt P answers event sessionId w

-- `#handleAttempt`
def judgeAttempt (P : Primitives) (answers : Answers) (event : Json) (expected : Option JsString) (w : World) :
    World × Except JsError AttemptResponse :=
  match w.host.admitEvent P event expected true with
  | (host, .error e) => (w.withHost host, .error e)
  | (host, .ok (.rejected reason)) => (w.withHost host, .ok (.reject reason))
  | (host, .ok (.session sessionId)) =>
      match host.verifySignature P answers event sessionId with
      | (host, .error e) => (w.withHost host, .error e)
      | (host, .ok (some reason)) => (w.withHost (host.rejectId (eventId event)), .ok (.reject reason))
      | (host, .ok none) => decideAttempt P answers event sessionId (w.withHost host)

-- `handleAttempt`. `expired` says that the deadline had passed when the lock was taken.
def handleAttempt (P : Primitives) (answers : Answers) (event : Json) (expected : Option JsString)
    (expired : Bool) (w : World) : World × Except JsError AttemptResponse :=
  if expired then (w, .ok .unavailable)
  else
    match chainKnown P answers w with
    | (w, .error e) => (w, .error e)
    | (w, .ok false) => (w, .ok .unavailable)
    | (w, .ok true) => judgeAttempt P answers event expected w

-- An outcome that is its operation's terminal record, or the record of a refusal.
def sealOutcome (P : Primitives) (answers : Answers) (event : Json) (sessionId digest : JsString) (w : World) :
    World × Except JsError OutcomeDisposition :=
  if !w.host.persistenceAvailable then (w, .ok .notRecorded)
  else
    match sealEvent P answers event w with
    | (w, .error e) => (w, .error e)
    | (w, .ok none) => (w, .ok .notRecorded)
    | (w, .ok (some _)) =>
        (w.withHost ((w.host.decide event sessionId).setTerminal sessionId (eventId event) digest), .ok .sealed)

def isAccepted (host : AuditHost) (sessionId id : JsString) : Bool :=
  (host.sessions.get sessionId).any fun session => id ∈ session.accepted

-- `#handleOutcome` once the signature verified.
def decideOutcome (P : Primitives) (answers : Answers) (event : Json) (sessionId : JsString) (w : World) :
    World × Except JsError OutcomeDisposition :=
  match digestOf P event with
  | .error e => (w, .error e)
  | .ok digest =>
      let terminal := (w.host.sessions.get sessionId).bind fun session => session.terminal.get (eventId event)
      if digest ∈ w.host.sealedDigests ∨ terminal = some digest then (w, .ok .repeated)
      else if terminal.isSome then
        (w.withHost ((w.host.decide event sessionId).flag (eventId event) .replayDetected
          (.text "differs from the outcome already sealed for this operation")), .ok .refused)
      else
        match w.host.checkReplay P event sessionId with
        | (host, some _) => (w.withHost host, .ok .refused)
        | (_, none) =>
            if !isAccepted w.host sessionId (eventId event) &&
                !Json.isText (event.get Fields.OUTCOME) Outcome.ABORTED then
              match stringOfOption P (event.get Fields.OUTCOME) with
              | .error e => (w.withHost (w.host.decide event sessionId), .error e)
              | .ok outcome =>
                  (w.withHost ((w.host.decide event sessionId).flag (eventId event) .orphanedOutcome
                    (.text (JsString.ofString "outcome=" ++ outcome ++
                      (if eventId event ∈ w.host.rejectedIds then JsString.ofString " for a rejected id"
                       else JsString.ofString " without an accepted attempt")))), .ok .refused)
            else sealOutcome P answers event sessionId digest w

-- `#handleOutcome`
def judgeOutcome (P : Primitives) (answers : Answers) (event : Json) (expected : Option JsString) (w : World) :
    World × Except JsError OutcomeDisposition :=
  match w.host.admitEvent P event expected false with
  | (host, .error e) => (w.withHost host, .error e)
  | (host, .ok (.rejected _)) => (w.withHost host, .ok .refused)
  | (host, .ok (.session sessionId)) =>
      match host.verifySignature P answers event sessionId with
      | (host, .error e) => (w.withHost host, .error e)
      | (host, .ok (some _)) => (w.withHost host, .ok .refused)
      | (host, .ok none) => decideOutcome P answers event sessionId (w.withHost host)

def recordOutcome (P : Primitives) (answers : Answers) (event : Json) (expected : Option JsString) (w : World) :
    World × Except JsError OutcomeDisposition :=
  if !event.isObject then
    (w.withHost (w.host.flag "<unknown>" .schemaInvalid (.text "an event must be a JSON object (§4)")), .ok .refused)
  else
    match chainKnown P answers w with
    | (w, .error e) => (w, .error e)
    | (w, .ok false) => (w, .ok .notRecorded)
    | (w, .ok true) => judgeOutcome P answers event expected w

namespace AuditHost

-- `openSession`. An id the host mints stands as the id the caller gives.
def openSession (host : AuditHost) (sessionId : JsString) : AuditHost × Except JsError JsString :=
  if sessionId ∈ host.issued then
    (host, .error (.error (JsString.ofString "audit session " ++ sessionId ++ " was already issued (§6.3)")))
  else
    ({ host with issued := addTo host.issued sessionId, sessions := host.sessions.set sessionId Session.new },
      .ok sessionId)

def unitsOrder (a b : JsString) : Prop := JsString.unitsLe a.units b.units = true

instance : DecidableRel unitsOrder := fun _ _ => inferInstanceAs (Decidable (_ = true))

def closeSession (host : AuditHost) (sessionId : JsString) : AuditHost :=
  match host.sessions.get sessionId with
  | none => host
  | some session =>
      let unresolved := (session.accepted.filter fun id => !session.terminal.has id).insertionSort unitsOrder
      unresolved.foldl (fun host id => host.flag id .unresolvedAttempt
          (.text (JsString.ofString "call ended with attempt " ++ id ++ " unresolved")))
        { host with sessions := host.sessions.delete sessionId }

end AuditHost

-- A session's tracker as it is kept outside the ledger.
structure SignerTracker where
  decided : List (JsString × List JsNum)
  received : List (JsString × JsNum)

structure OpenSession where
  sessionId : JsString
  signers : Option SignerTracker

-- The order of `(a, b) => a - b`. Where a value is NaN that comparison is none, and the
-- language leaves open where the value goes: here it goes last.
def numberOrder (a b : JsNum) : Prop := b = .nan ∨ a ≠ .nan ∧ b.lt a = false

instance : DecidableRel numberOrder := fun a b => inferInstanceAs (Decidable (b = .nan ∨ a ≠ .nan ∧ b.lt a = false))

def Session.signerTracker (session : Session) : SignerTracker where
  decided := session.decided.entries.map fun entry => (entry.1, entry.2.insertionSort numberOrder)
  received := session.received.entries

def AuditHost.signerTracker (host : AuditHost) (sessionId : JsString) : Option SignerTracker :=
  (host.sessions.get sessionId).map Session.signerTracker

def restoredNumber (event : Json) (session : Session) : Session :=
  match event.get Fields.KEY_ID, event.get Fields.SIGNER_SEQ with
  | some (.str keyId), some (.num signerSeq) =>
      { session with
        decided := session.decided.set keyId (addTo ((session.decided.get keyId).getD []) signerSeq)
        received := session.received.set keyId (((session.received.get keyId).getD signerSeq).max signerSeq) }
  | _, _ => session

def restoredRecord (P : Primitives) (sessionId : JsString) (session : Session) (record : SealedRecord) :
    Except JsError Session := do
  let event := record.event
  if !Json.isText (event.get Fields.SESSION_ID) sessionId ||
      !Json.isText (event.get Fields.SPEC_VERSION) SPEC_VERSION then
    return session
  let session := restoredNumber event session
  if isAttempted event then
    return { session with accepted := addTo session.accepted (eventId event) }
  let digest ← digestOf P event
  return { session with terminal := session.terminal.set (eventId event) digest }

def restoredSession (P : Primitives) (sessionId : JsString) (records : List SealedRecord) :
    Except JsError Session := records.foldlM (restoredRecord P sessionId) Session.new

def Session.withDecided (session : Session) (entry : JsString × List JsNum) : Session :=
  { session with
    decided := session.decided.set entry.1
      (entry.2.foldl addTo ((session.decided.get entry.1).getD [])) }

def Session.withReceived (session : Session) (entry : JsString × JsNum) : Session :=
  { session with
    received := session.received.set entry.1 (((session.received.get entry.1).getD entry.2).max entry.2) }

def Session.withSigners (session : Session) : Option SignerTracker → Session
  | none => session
  | some signers => signers.received.foldl Session.withReceived (signers.decided.foldl Session.withDecided session)

namespace AuditHost

-- What `resume` takes over from one stored record.
def resumeRecord (P : Primitives) (host : AuditHost) (record : SealedRecord) : Except JsError AuditHost := do
  let host ← host.remember P record
  match record.event.get Fields.SESSION_ID with
  | some (.str sessionId) => return { host with issued := addTo host.issued sessionId }
  | _ => return host

def resumeSession (P : Primitives) (records : List SealedRecord) (host : AuditHost) (entry : OpenSession) :
    Except JsError AuditHost := do
  let session ← restoredSession P entry.sessionId records
  return { host with
    issued := addTo host.issued entry.sessionId
    sessions := host.sessions.set entry.sessionId (session.withSigners entry.signers) }

-- The ids of attempts left without an outcome, by session and id.
def unresolvedStep (P : Primitives) (isOpen : List JsString)
    (attempts : OrderedMap (JsString × JsString) JsString) (record : SealedRecord) :
    Except JsError (OrderedMap (JsString × JsString) JsString) :=
  match record.event.get Fields.SESSION_ID with
  | some (.str sessionId) =>
      if !Json.isText (record.event.get Fields.SPEC_VERSION) SPEC_VERSION || sessionId ∈ isOpen then
        .ok attempts
      else do
        let id ← stringOfOption P (record.event.get Fields.ID)
        if isAttempted record.event then return attempts.set (sessionId, id) id
        else return attempts.delete (sessionId, id)
  | _ => .ok attempts

def flagUnresolved (P : Primitives) (host : AuditHost) (records : List SealedRecord) (isOpen : List JsString) :
    Except JsError AuditHost := do
  let attempts ← records.foldlM (unresolvedStep P isOpen) OrderedMap.empty
  return (attempts.entries.map Prod.snd).foldl (fun host id => host.flag id .unresolvedAttempt
    (.text (JsString.ofString "host restarted with attempt " ++ id ++ " unresolved"))) host

def resume (P : Primitives) (config : HostConfig) (records : List SealedRecord)
    (openSessions : List OpenSession) : Except JsError AuditHost := do
  let host := { AuditHost.new config with ledger := Ledger.resumeFrom records.getLast? }
  let host ← records.foldlM (resumeRecord P) host
  let host ← openSessions.foldlM (resumeSession P records) host
  host.flagUnresolved P records (openSessions.map OpenSession.sessionId)

end AuditHost

-- One call of the tool, the binding or the integrator. The host's lock runs them one
-- after the other.
inductive Call where
  | openSession (sessionId : JsString)
  | closeSession (sessionId : JsString)
  | attempt (answers : Answers) (event : Json) (expected : Option JsString) (expired : Bool)
  | outcome (answers : Answers) (event : Json) (expected : Option JsString)
  | setPersistenceAvailable (available : Bool)
  | resume (capability : AuditCapabilityInput) (options : AuditHostOptions) (openSessions : List OpenSession)

inductive Reply where
  | done
  | opened (sessionId : JsString)
  | attempt (response : AttemptResponse)
  | outcome (disposition : OutcomeDisposition)
  | threw (error : JsError)

def World.replying {α : Type} (reply : α → Reply) : World × Except JsError α → World × Reply
  | (w, .ok value) => (w, reply value)
  | (w, .error e) => (w, .threw e)

-- `AuditHost.resume`. Where it throws there is no new host, and the old one stands.
def World.resume (P : Primitives) (w : World) (capability : AuditCapabilityInput) (options : AuditHostOptions)
    (openSessions : List OpenSession) : World × Reply :=
  let resumed := do
    let config ← HostConfig.construct w.host.config.partition capability { options with repository := true }
    AuditHost.resume P config w.stored openSessions
  match resumed with
  | .ok host => ({ w with host }, .done)
  | .error e => (w, .threw e)

def perform (P : Primitives) (w : World) : Call → World × Reply
  | .openSession sessionId =>
      World.replying .opened ((w.withHost (w.host.openSession sessionId).1), (w.host.openSession sessionId).2)
  | .closeSession sessionId => (w.withHost (w.host.closeSession sessionId), .done)
  | .attempt answers event expected expired =>
      World.replying .attempt (handleAttempt P answers event expected expired w)
  | .outcome answers event expected => World.replying .outcome (recordOutcome P answers event expected w)
  | .setPersistenceAvailable available => (w.withHost { w.host with persistenceAvailable := available }, .done)
  | .resume capability options openSessions => w.resume P capability options openSessions

-- The world after a list of calls.
def run (P : Primitives) (w : World) (calls : List Call) : World :=
  calls.foldl (fun w call => (perform P w call).1) w

-- A new host over an empty partition.
def World.new (config : HostConfig) : World := ⟨AuditHost.new config, []⟩

end AuditableMcp
