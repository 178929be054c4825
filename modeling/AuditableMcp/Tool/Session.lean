import AuditableMcp.Hashing
import AuditableMcp.Json.Stringify
import AuditableMcp.L2.Base64
import AuditableMcp.Library.Program
import AuditableMcp.Verify.Chain

-- The tool's side of one audited operation (session.ts, with-audit.ts, salted-hash.ts).
namespace AuditableMcp

-- What a countersignature verifier resolves to.
inductive Verdict where
  | valid
  | invalid
  | unavailable
deriving DecidableEq

-- What a handler does to its action, in order.
inductive Move where
  | succeeded
  | failed
  | dispose
deriving DecidableEq

structure HandlerRun where
  moves : List Move
  ending : Except JsError Json

-- What a session asks of the code it is given: time and id sources, the section that
-- numbers events, signer, transport, countersignature verifier and handler.
inductive SessionCall where
  | newId
  | now
  | randomValues (count : Nat)
  | enter
  | advance (next : Nat)
  | leave
  | sign (event : Json) (signerSeq : Nat)
  | sendAttempt (event : Json)
  | sendOutcome (event : Json)
  | verify (hostKeyId hostSignature : Option Json) (payload : List UInt8)
  | handler (accept : Json)

abbrev SessionCall.Answer : SessionCall → Type
  | .newId => Except JsError JsString
  | .now => Except JsError JsString
  | .randomValues _ => List UInt8
  -- The number the section is at, whatever other actions of the session made of it.
  | .enter => Nat
  | .advance _ => Unit
  | .leave => Unit
  | .sign _ _ => Except JsError Json
  | .sendAttempt _ => Except JsError (Option Json)
  | .sendOutcome _ => Except JsError Unit
  | .verify _ _ _ => Except JsError Verdict
  | .handler _ => HandlerRun

abbrev Tool (α : Type) := Program SessionCall.Answer JsError α

-- A call whose answer may be a throw.
def askOk {α : Type} (c : SessionCall) (h : c.Answer = Except JsError α) : Tool α := do
  let answer ← Program.ask c
  Program.ofExcept (h ▸ answer)

structure SessionOptions where
  signer : Option JsString
  pollutedStop : Option Bool
  countersignatureVerifier : Bool
  requireCountersign : Option Bool

-- A session as the constructor admits it. A signer shows itself in what it answers; here
-- it counts under which key it signs.
structure AmcpSession where
  sessionId : JsString
  signer : Option JsString
  pollutedStop : Bool
  countersignatureVerifier : Bool
  requireCountersign : Bool
  named : SESSION_ID_PATTERN.test sessionId.units = true
  verifies : requireCountersign = true → countersignatureVerifier = true
  stops : signer.isSome = true ∨ requireCountersign = true → pollutedStop = true

def AmcpSession.construct (sessionId : JsString) (options : SessionOptions) : Except JsError AmcpSession :=
  let requireCountersign := options.requireCountersign.getD false
  if hid : SESSION_ID_PATTERN.test sessionId.units = false then
    .error (.usageError (JsString.ofString "sessionId " ++ ⟨quote sessionId⟩ ++
      JsString.ofString (" is not a session id: it must be a lowercase RFC 9562 UUID, " ++
        "not the nil UUID - the one the host issued (McpAuditCall.sessionId) or one from newSessionId() (§6.3)")))
  else if hverifier : requireCountersign = true ∧ options.countersignatureVerifier = false then
    .error (.error "requireCountersign needs a CountersignatureVerifier")
  else if hsigner : options.pollutedStop = some false ∧ options.signer.isSome = true then
    .error (.error "Polluted Stop is REQUIRED under Level 2 (§7.2, §11.3)")
  else if hrequired : options.pollutedStop = some false ∧ requireCountersign = true then
    .error (.error "Polluted Stop is REQUIRED where a countersignature is required (§7.2, §11.3)")
  else .ok
    { sessionId
      signer := options.signer
      pollutedStop := options.pollutedStop.getD (options.signer.isSome || requireCountersign)
      countersignatureVerifier := options.countersignatureVerifier
      requireCountersign
      named := by simpa using hid
      verifies := fun h => by simpa [h] using hverifier
      stops := fun h => by
        cases hp : options.pollutedStop with
        | none => simpa using h
        | some stop =>
            cases stop with
            | true => rfl
            | false => exact absurd h (by simp only [hp, true_and] at hsigner hrequired; tauto) }

structure TargetResource where
  kind : JsString
  ref : JsString
  scope_hint : Option JsString

def TargetResource.toJson (target : TargetResource) : Json :=
  objectOf [(Fields.KIND, some (.str target.kind)), (Fields.REF, some (.str target.ref)),
    (Fields.SCOPE_HINT, target.scope_hint.map .str)]

-- `targetResourceSchema.parse`
def parseTarget (value : Json) : Except JsError TargetResource :=
  match targetResourceSchema (some value), value.get Fields.KIND, value.get Fields.REF with
  | none, some (.str kind), some (.str ref) =>
      .ok ⟨kind, ref, match value.get Fields.SCOPE_HINT with | some (.str hint) => some hint | _ => none⟩
  | _, _, _ => .error .zodError

structure AuditSpec where
  actionType : JsString
  targetResource : Json
  mutates : Bool
  egress : Bool
  disclose : Option Json
  commit : Option Json
  commitSalted : Option Json

inductive Marked where
  | success
  | failed
deriving DecidableEq

structure AuditedAction where
  id : JsString
  actionType : JsString
  target : TargetResource
  mutates : Bool
  egress : Bool
  disclose : Option Json
  commitHash : Option JsString
  disclosure : Option JsString
  saltedHash : Option JsString
  outcome : Option Marked
  finished : Bool
  -- The host's accept, once the attempt is cleared.
  accept : Option Json

def SALT_BYTES : Nat := 16

def newSalt : Tool JsString := do
  let bytes ← Program.ask (.randomValues SALT_BYTES)
  return bytesToBase64url bytes

def disclosureOf (P : Primitives) (salt : JsString) (context : Json) : JsString :=
  bytesToBase64url (encodeUtf8 (jsonText P (.arr [.str salt, context])))

def saltedHashOf (P : Primitives) (disclosure : JsString) : JsString :=
  bytesToBase64url (P.sha256 (encodeUtf8 disclosure))

section

variable (P : Primitives) (session : AmcpSession)

-- `new AuditedAction(session, id, …)`
def AuditedAction.create (id : JsString) (target : TargetResource) (spec : AuditSpec) : Tool AuditedAction := do
  let commitHash ← match spec.commit with
    | none => pure none
    | some value => do
        let hash ← Program.ofExcept (hashCanonical P value)
        pure (some hash)
  let disclosure ← match spec.commitSalted with
    | none => pure none
    | some context => do
        let salt ← newSalt
        pure (some (disclosureOf P salt context))
  return { id, actionType := spec.actionType, target, mutates := spec.mutates, egress := spec.egress,
           disclose := spec.disclose, commitHash, disclosure, saltedHash := disclosure.map (saltedHashOf P),
           outcome := none, finished := false, accept := none }

namespace AuditedAction

variable (action : AuditedAction)

-- The event as it is put together, its absent members left out.
def event (ts outcome : JsString) (reason : Option JsString) : Json :=
  objectOf
    [(Fields.ID, some (.str action.id)),
     (Fields.SPEC_VERSION, some (.str SPEC_VERSION)),
     (Fields.TS, some (.str ts)),
     (Fields.SESSION_ID, some (.str session.sessionId)),
     (Fields.ACTION_TYPE, some (.str action.actionType)),
     (Fields.MUTATES, some (.bool action.mutates)),
     (Fields.EGRESS, some (.bool action.egress)),
     (Fields.TARGET_RESOURCE, some action.target.toJson),
     (Fields.OUTCOME, some (.str outcome)),
     (Fields.REASON, reason.map .str),
     (Fields.ACTION_CONTEXT, action.disclose),
     (Fields.ACTION_CONTEXT_HASH, action.commitHash.map .str),
     (Fields.ACTION_CONTEXT_SALTED_HASH, action.saltedHash.map .str)]

def succeeded : AuditedAction := if action.outcome = none then { action with outcome := some .success } else action

def failed : AuditedAction := { action with outcome := some .failed }

end AuditedAction

def stamp (event : Json) (signerSeq : Option Nat) : Tool Json :=
  match session.signer, signerSeq with
  | some _, some n => askOk (.sign event n) rfl
  | _, _ => pure event

-- `_build`. What the schema's `parse` returns is the event it was given, up to the order of members.
def build (action : AuditedAction) (outcome : JsString) (signerSeq : Option Nat) (reason : Option JsString) :
    Tool Json := do
  let ts ← askOk .now rfl
  let event := action.event session ts outcome reason
  if auditEventSchema (some event) = none then stamp session event signerSeq
  else Program.ofExcept (.error .zodError)

-- `numbering` and `SessionNumbering.run`: under a signer the section spans the body, and
-- the number is used up where the body did not throw.
def numbering {α : Type} (body : Option Nat → Tool α) : Tool α :=
  match session.signer with
  | none => body none
  | some _ => do
      let signerSeq ← Program.ask .enter
      Program.andFinally
        (do
          let result ← body (some signerSeq)
          Program.ask (SessionCall.advance (signerSeq + 1))
          return result)
        (Program.ask SessionCall.leave)

def emitOutcome (action : AuditedAction) (outcome : JsString) (reason : Option JsString) : Tool Unit :=
  numbering session fun signerSeq => do
    let event ← build session action outcome signerSeq reason
    askOk (.sendOutcome event) rfl

-- A failure to emit the outcome is logged, no more.
def emitAbortedBestEffort (action : AuditedAction) (reason : AbortReason) : Tool Unit := do
  let _ ← (emitOutcome session action Outcome.ABORTED (some reason.text)).settle
  return ()

structure Sent where
  attempt : Json
  response : Option Json
  fault : Option JsError

def unavailableResponse : Json :=
  objectOf [(Fields.STATUS, some (.str Status.UNAVAILABLE)), (Fields.REASON, some (.str Tier1Code.internalError.text))]

-- Number, build and send the attempt. A fault of the transport counts as `unavailable`;
-- misuse of the SDK reaches the caller as itself.
def sendNumbered (action : AuditedAction) : Tool Sent :=
  numbering session fun signerSeq => do
    let numbered ← build session action Outcome.ATTEMPTED signerSeq none
    let answer : Except JsError (Option Json) ← Program.ask (SessionCall.sendAttempt numbered)
    match answer with
    | .ok response => return ⟨numbered, response, none⟩
    | .error (.usageError message) => Program.ofExcept (.error (.usageError message))
    | .error fault => return ⟨numbered, some unavailableResponse, some fault⟩

def abort {α : Type} (action : AuditedAction) (reason : AbortReason) : Tool α := do
  emitAbortedBestEffort session action reason
  Program.ofExcept (.error (.abortedError action.actionType action.target.ref reason.text))

def checkStatus (action : AuditedAction) (sent : Sent) : Tool Json :=
  match sent.fault with
  | some fault => do
      emitAbortedBestEffort session action .hostUnavailable
      Program.ofExcept (.error (.abortedBy action.actionType action.target.ref AbortReason.hostUnavailable.text fault))
  | none => do
      let status ← Program.ofExcept (readMember Fields.STATUS sent.response)
      if Json.isText status Status.ACCEPT then return sent.response.getD .null
      else
        abort session action (if Json.isText status Status.REJECT then .hostRejected else .hostUnavailable)

def checkCountersigned (action : AuditedAction) (response : Json) : Tool Unit :=
  if session.requireCountersign = true ∧ response.get Fields.HOST_SIGNATURE = none then
    abort session action .hostUncountersigned
  else if (response.get Fields.HOST_SIGNATURE).isSome = true ∧ session.countersignatureVerifier = true then do
    let payload ← Program.ofExcept (countersignaturePayload P (response.get Fields.SEQ) (response.get Fields.HOST_TS)
      (response.get Fields.LOG_ID) (response.get Fields.PREVIOUS_HASH) (response.get Fields.RECORD_HASH))
    match ← askOk (.verify (response.get Fields.HOST_KEY_ID) (response.get Fields.HOST_SIGNATURE) payload) rfl with
    | .unavailable => abort session action .hostUnavailable
    | .invalid => abort session action .hostSignatureInvalid
    | .valid => return ()
  else return ()

-- The hash is recomputed over the attempt as it was sent.
def checkPollutedStop (action : AuditedAction) (attempt response : Json) : Tool Unit :=
  if session.pollutedStop then do
    let expected ← Program.ofExcept (computeRecordHash P (some attempt) (response.get Fields.SEQ)
      (response.get Fields.HOST_TS) (response.get Fields.PREVIOUS_HASH))
    if Json.isText (response.get Fields.RECORD_HASH) expected then return ()
    else abort session action .hashMismatch
  else return ()

-- What follows the attempt: status, then countersignature, then hash.
def clear (action : AuditedAction) (sent : Sent) : Tool AuditedAction := do
  let response ← checkStatus session action sent
  checkCountersigned P session action response
  checkPollutedStop P session action sent.attempt response
  return { action with accept := some response }

-- `session.action`, up to the point where the attempt is built.
def newAction (spec : AuditSpec) : Tool AuditedAction := do
  let target ← Program.ofExcept (parseTarget spec.targetResource)
  let id ← askOk .newId rfl
  AuditedAction.create P id target spec

def AmcpSession.action (spec : AuditSpec) : Tool AuditedAction := do
  let action ← newAction P spec
  let sent ← sendNumbered session action
  clear P session action sent

-- The disposer: one terminal outcome, however often it is called, and no failure to emit it.
def asyncDispose (action : AuditedAction) : Tool AuditedAction :=
  if action.finished then return action
  else do
    let outcome := if action.outcome = some .success then Outcome.SUCCESS else Outcome.FAILED
    let _ ← (emitOutcome session action outcome none).settle
    return { action with finished := true }

def makeMoves (action : AuditedAction) : List Move → Tool AuditedAction
  | [] => pure action
  | .succeeded :: rest => makeMoves action.succeeded rest
  | .failed :: rest => makeMoves action.failed rest
  | .dispose :: rest => do
      let action ← asyncDispose session action
      makeMoves action rest

-- The handler's result is `success`, its throw is `failed`.
def withAudit (spec : AuditSpec) : Tool Json := do
  let action ← AmcpSession.action P session spec
  let run : HandlerRun ← Program.ask (SessionCall.handler (action.accept.getD .null))
  let action ← makeMoves session action run.moves
  match run.ending with
  | .ok result => do
      let _ ← asyncDispose session action.succeeded
      return result
  | .error e => do
      let _ ← asyncDispose session action.failed
      Program.ofExcept (.error e)

end

end AuditableMcp
