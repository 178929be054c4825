import AuditableMcp.Library.OrderedMap
import AuditableMcp.Mcp.Frames

-- The tool side of the wire: `McpAuditTransport` and the `McpAuditCall`s it hands out
-- (mcp/seam.ts). Objects that the source shares by reference are numbered: the calls, the
-- sessions and the attempts.
namespace AuditableMcp.Mcp

-- An event as a tool's session hands it over, under a string id.
structure ToolEvent where
  members : Members
  id : JsString
  named : Json.lookup members Fields.ID = some (.str id)

def ToolEvent.isAttempt (event : ToolEvent) : Bool :=
  Json.isText (Json.lookup event.members Fields.OUTCOME) Outcome.ATTEMPTED

-- `Round`
structure OpenRound where
  token : JsString
  awaiting : OrderedMap JsString Nat

structure ToolSession where
  sessionId : JsString
  hostCapability : Option AuditCapability
  numbering : Nat
  negotiation : Option NegotiationResult
  live : Int

structure ToolCall where
  originalId : RequestId
  modern : Bool
  hostCapability : Option AuditCapability
  session : Option Nat
  taskAugmented : Bool
  numbering : Nat
  ids : List RequestId
  currentId : Option RequestId
  negotiated : Bool
  buffered : List ToolEvent
  nextAwaiting : OrderedMap JsString Nat
  round : Option OpenRound
  roundScheduled : Bool
  finished : Bool
  cancelled : Bool
  held : Option JsonRpcFrame
  accepted : List JsString
  -- The call's history, which no step reads: the events its handler emitted before it
  -- concluded, the frame it concluded with, and what was buffered then.
  emitted : List ToolEvent
  answer : Option JsonRpcFrame
  leftover : List ToolEvent

-- An attempt and the `Once` it waits on. A wait that ended with no answer is abandoned.
structure Attempt where
  call : Nat
  event : ToolEvent
  settlement : Pending
  abandoned : Bool

-- The sessions of one connection: `#sessions` and `#idle`, by session id.
structure SessionTable where
  heap : List ToolSession
  known : OrderedMap JsString Nat
  idle : OrderedMap JsString Nat
  numberings : Nat

namespace SessionTable

def empty : SessionTable := ⟨[], .empty, .empty, 0⟩

def sessionIdOf (table : SessionTable) (session : Nat) : Option JsString :=
  (table.heap[session]?).map ToolSession.sessionId

-- `#acquireSession`
def acquire (table : SessionTable) (sessionId : JsString) (declared : Option AuditCapability) :
    SessionTable × Nat × ToolSession :=
  match (table.known.get sessionId).bind fun session => (table.heap[session]?).map fun found => (session, found) with
  | some (session, found) =>
      ({ table with
          heap := table.heap.modify session fun found => { found with live := found.live + 1 }
          idle := table.idle.delete sessionId }, session, found)
  | none =>
      let fresh : ToolSession := ⟨sessionId, declared, table.numberings, none, 1⟩
      ({ table with
          heap := table.heap ++ [fresh]
          known := table.known.set sessionId table.heap.length
          idle := table.idle.delete sessionId
          numberings := table.numberings + 1 }, table.heap.length, fresh)

-- `#dropSession`
def drop (table : SessionTable) (session : Nat) : SessionTable :=
  match table.heap[session]? with
  | none => table
  | some found =>
      if table.known.get found.sessionId = some session then
        { table with known := table.known.delete found.sessionId, idle := table.idle.delete found.sessionId }
      else table

def evict (table : SessionTable) (session : Nat) : SessionTable :=
  if table.idle.entries.length ≤ MAX_IDLE_SESSIONS then table
  else table.drop session

-- `#keepIdle`
def keepIdle (table : SessionTable) (session : Nat) : SessionTable :=
  match table.heap[session]? with
  | none => table
  | some found =>
      let kept := { table with idle := (table.idle.delete found.sessionId).set found.sessionId session }
      kept.idle.entries.foldl (fun table entry => table.evict entry.2) kept

-- The end of `#release`.
def leave (table : SessionTable) (session : Nat) (final : Bool) : SessionTable :=
  match table.heap[session]? with
  | none => table
  | some found =>
      let left := { table with heap := table.heap.modify session fun found => { found with live := found.live - 1 } }
      if found.live - 1 > 0 then left
      else if final then left.drop session
      else left.keepIdle session

def pin (table : SessionTable) (session : Nat) (result : NegotiationResult) : SessionTable :=
  { table with heap := table.heap.modify session fun found => { found with negotiation := some result } }

def dropAll (table : SessionTable) : SessionTable :=
  table.known.entries.foldl (fun table entry => table.drop entry.2) table

end SessionTable

-- What the seam hands to the wrapped transport, place by place.
inductive Written where
  | round (call : Nat) (token : JsString) (events : List ToolEvent) (frame : JsonRpcFrame)
  | final (call : Nat) (answer : JsonRpcFrame) (events : List ToolEvent) (frame : JsonRpcFrame)
  | message (call : Nat) (event : ToolEvent) (frame : JsonRpcFrame)
  | refusal (frame : JsonRpcFrame)
  | passed (frame : JsonRpcFrame)

-- A conclusion with an error whose outcomes are out in a round of their own: what follows
-- the `await` of that round's send. It may be that an inbound frame's handling waits for it.
structure Suspended where
  call : Nat
  answer : JsonRpcFrame
  inbound : Bool

structure TransportConfig where
  declares : AuditCapability
  instanceId : JsString

structure Transport where
  handshakeId : Option RequestId
  handshakeSeen : Bool
  handshakeCapability : Option AuditCapability
  calls : List ToolCall
  attempts : List Attempt
  sessions : SessionTable
  -- `#calls`
  tracked : OrderedMap RequestId Nat
  concluded : OrderedMap RequestId Nat
  rounds : OrderedMap JsString Nat
  pending : OrderedMap JsString Nat
  cancelled : List RequestId
  nextId : Nat
  suspended : List Suspended
  -- An inbound frame's handling is waiting for a send, and the next frame for it.
  handling : Bool
  -- The tokens minted, what was written and what the tool's session was given, oldest first.
  minted : List JsString
  written : List Written
  delivered : List JsonRpcFrame

-- The first settlement stands.
def settle (attempts : List Attempt) (attempt : Nat) (response : Json) : List Attempt :=
  attempts.modify attempt fun found => { found with settlement := found.settlement.settle response }

def unanswered (attempts : List Attempt) (awaiting : OrderedMap JsString Nat) : List Attempt :=
  awaiting.entries.foldl (fun attempts entry => settle attempts entry.2 unavailableResponse) attempts

namespace Transport

variable (config : TransportConfig) (s : Transport)

def empty : Transport :=
  { handshakeId := none, handshakeSeen := false, handshakeCapability := none, calls := [], attempts := [],
    sessions := .empty, tracked := .empty, concluded := .empty, rounds := .empty, pending := .empty, cancelled := [],
    nextId := 0, suspended := [], handling := false, minted := [], written := [], delivered := [] }

def alter (call : Nat) (change : ToolCall → ToolCall) : Transport := { s with calls := s.calls.modify call change }

def write (written : Written) : Transport := { s with written := s.written ++ [written] }

def deliver (frame : JsonRpcFrame) : Transport := { s with delivered := s.delivered ++ [frame] }

def sessionIdOf (call : ToolCall) : Option JsString := call.session.bind s.sessions.sessionIdOf

def forgetCancelled (key : RequestId) : Transport := { s with cancelled := s.cancelled.filter fun other => other ≠ key }

-- `{ session_id, events }`; an `undefined` member is not written.
def auditEvents (sessionId : Option JsString) (events : List ToolEvent) : Json :=
  .obj ((sessionId.map fun text => (Fields.SESSION_ID, Json.str text)).toList ++
    [(Fields.EVENTS, .arr (events.map fun event => .obj event.members))])

def roundFrame (requestId : RequestId) (sessionId : Option JsString) (token : JsString) (events : List ToolEvent) :
    JsonRpcFrame :=
  { id := some requestId, method := none, params := none, error := none
    result := some
      [(RESULT_TYPE, .str INPUT_REQUIRED), (REQUEST_STATE, .str token),
       (META, .obj [(EXTENSION_ID, auditEvents sessionId events)])] }

-- `#endRound`
def endRound (call : Nat) (token : JsString) : Transport :=
  match s.calls[call]? with
  | none => s
  | some found =>
      match found.currentId with
      | none => s
      | some requestId =>
          if found.buffered.isEmpty then s
          else
            { s with
              calls := s.calls.modify call fun found =>
                { found with
                  buffered := [], round := some ⟨token, found.nextAwaiting⟩, nextAwaiting := .empty, currentId := none }
              rounds := s.rounds.set token call
              minted := s.minted ++ [token]
              written := s.written ++
                [.round call token found.buffered (roundFrame requestId (s.sessionIdOf found) token found.buffered)] }

-- `#scheduleRound`
def scheduleRound (call : Nat) : Transport := s.alter call fun found => { found with roundScheduled := true }

-- The attempts of the calls in `#pending` that `#release` withdraws.
def pendingOf (call : Nat) : OrderedMap JsString Nat :=
  ⟨s.pending.entries.filter fun entry => (s.attempts[entry.2]?).any fun attempt => attempt.call = call⟩

def pendingApart (call : Nat) : OrderedMap JsString Nat :=
  ⟨s.pending.entries.filter fun entry => ¬(s.attempts[entry.2]?).any fun attempt => attempt.call = call⟩

def roundsWithout (found : ToolCall) : OrderedMap JsString Nat :=
  match found.round with
  | none => s.rounds
  | some round => s.rounds.delete round.token

def roundAwaiting (found : ToolCall) : OrderedMap JsString Nat := (found.round.map OpenRound.awaiting).getD .empty

def leaveSession (found : ToolCall) (final : Bool) : SessionTable :=
  match found.session with
  | none => s.sessions
  | some session => s.sessions.leave session final

-- `#release`, with the `#closeRound` in it.
def release (call : Nat) (final : Bool) : Transport :=
  match s.calls[call]? with
  | none => s
  | some found =>
      if s.tracked.get found.originalId = some call then
        { s with
          tracked := s.tracked.delete found.originalId
          concluded := s.concluded.delete found.originalId
          calls := s.calls.modify call fun found => { found with held := none, round := none, nextAwaiting := .empty }
          rounds := s.roundsWithout found
          attempts := unanswered (unanswered (unanswered s.attempts (roundAwaiting found)) found.nextAwaiting)
            (s.pendingOf call)
          pending := s.pendingApart call
          sessions := s.leaveSession found final }
      else s

-- One that the bound on kept calls drops.
def evictConcluded (call : Nat) : Transport :=
  if s.concluded.entries.length ≤ MAX_IDLE_SESSIONS then s
  else (s.alter call fun found => { found with cancelled := true }).release call true

-- `#keepConcluded`
def keepConcluded (call : Nat) (answer : JsonRpcFrame) : Transport :=
  match s.calls[call]? with
  | none => s
  | some found =>
      let kept :=
        { s.alter call fun found => { found with held := some answer } with
          concluded := (s.concluded.delete found.originalId).set found.originalId call }
      kept.concluded.entries.foldl (fun s entry => s.evictConcluded entry.2) kept

-- The final frame on the id that is open, with the outcomes in its `_meta`.
def finalFrame (found : ToolCall) (requestId : RequestId) (answer : JsonRpcFrame) : JsonRpcFrame :=
  let forward := { answer with id := some requestId }
  if answer.error.isSome || found.buffered.isEmpty then forward
  else
    let result := answer.result.getD []
    let carried := withMember (metaOf (some (.obj result))) EXTENSION_ID (auditEvents (s.sessionIdOf found) found.buffered)
    { forward with result := some (withMember result META (.obj carried)) }

-- `#conclude`, up to the `await` of an outcomes-only round's send.
def conclude (call : Nat) (answer : JsonRpcFrame) (token : JsString) (inbound : Bool) : Transport :=
  match s.calls[call]? with
  | none => s
  | some found =>
      if answer.error.isSome && !found.buffered.isEmpty then
        { s.endRound call token with suspended := s.suspended ++ [⟨call, answer, inbound⟩] }
      else
        let emptied := s.alter call fun found => { found with buffered := [] }
        let forwarded := match found.currentId with
          | none => emptied
          | some requestId => emptied.write (.final call answer found.buffered (s.finalFrame found requestId answer))
        forwarded.release call (!answer.continues)

-- `#finish`
def finish (call : Nat) (answer : JsonRpcFrame) (token : JsString) : Transport :=
  match s.calls[call]? with
  | none => s
  | some found =>
      let abandoned :=
        { s.alter call fun found =>
            { found with buffered := found.buffered.filter fun event => !event.isAttempt, nextAwaiting := .empty } with
          attempts := unanswered s.attempts found.nextAwaiting }
      if found.round.isSome then abandoned.keepConcluded call answer
      else abandoned.conclude call answer token false

-- `outbound`: what the tool's session writes.
def outbound (frame : JsonRpcFrame) (token : JsString) : Transport :=
  match frame.id with
  | none => s.write (.passed frame)
  | some id =>
      if !frame.isResponse then s.write (.passed frame)
      else if s.handshakeId = some id ∧ frame.result.isSome then
        s.write (.passed { frame with result := frame.result.map (declareIn config.declares) })
      else if id ∈ s.cancelled then s.forgetCancelled id
      else
        match s.tracked.get id with
        | none => s.write (.passed frame)
        | some call =>
            match s.calls[call]? with
            | none => s
            | some found =>
                if found.originalId ≠ id ∨ found.finished then s.write (.passed frame)
                else
                  let concluding := s.alter call fun found =>
                    { found with finished := true, answer := some frame, leftover := found.buffered }
                  if found.modern then concluding.finish call frame token
                  else (concluding.write (.final call frame [] frame)).release call (!frame.continues)

-- What a retry's responses answer to an attempt its round carried.
def answerOf (responses : Members) (entry : JsString × Nat) : Json :=
  match Json.lookup responses entry.1 with
  | some response => readResponse response
  | none => unavailableResponse

-- One turn of the loop of `#acceptRetry`.
def answerAttempt (call : Nat) (responses : Members) (s : Transport) (entry : JsString × Nat) : Transport :=
  match s.attempts[entry.2]? with
  | none => s
  | some attempt =>
      let answered := { s with attempts := settle s.attempts entry.2 (answerOf responses entry) }
      if attempt.settlement = none ∧ Json.isText ((answerOf responses entry).get Fields.STATUS) Status.ACCEPT then
        answered.alter call fun found => { found with accepted := found.accepted.insert entry.1 }
      else answered

-- The responses a retry carries in its call's session.
def responsesTo (found : ToolCall) (frame : JsonRpcFrame) : Members :=
  retryAnswers (s.sessionIdOf found) (frame.metaParam EXTENSION_ID)

-- The round's end in `#acceptRetry`, and the answers to its attempts.
def resume (call : Nat) (round : OpenRound) (id : RequestId) (frame : JsonRpcFrame) : Transport :=
  match s.calls[call]? with
  | none => s
  | some found =>
      let resumed :=
        { s.alter call fun found =>
            { found with round := none, ids := found.ids.insert id, currentId := some id } with
          rounds := s.rounds.delete round.token }
      round.awaiting.entries.foldl (answerAttempt call (s.responsesTo found frame)) resumed

def takeHeld (call : Nat) (found : ToolCall) : Transport :=
  { s.alter call fun found => { found with held := none } with
    concluded := s.concluded.delete found.originalId, handling := true }

-- The rest of `#acceptRetry`: the final frame that was held goes out, or the events emitted
-- meanwhile wait for the next round.
def proceed (call : Nat) (token : JsString) : Transport :=
  match s.calls[call]? with
  | none => s
  | some found =>
      match found.held with
      | some held => (s.takeHeld call found).conclude call held token true
      | none =>
          if !found.finished && found.buffered.any ToolEvent.isAttempt then s.scheduleRound call else s

def refusal (id : RequestId) : JsonRpcFrame :=
  { id := some id, method := none, params := none, result := none
    error := some (.obj [("code", INVALID_PARAMS), ("message", .str NO_OPEN_ROUND_MESSAGE)]) }

-- The call whose current round is open under a token.
def openRound (state : JsString) : Option (Nat × OpenRound) :=
  (s.rounds.get state).bind fun call =>
    ((s.calls[call]?).bind ToolCall.round).bind fun round =>
      if round.token = state then some (call, round) else none

-- The retry of `#takeCall`.
def takeRetry (frame : JsonRpcFrame) (id : RequestId) (state token : JsString) : Transport :=
  match s.openRound state with
  | none => { s.write (.refusal (refusal id)) with rounds := s.rounds.delete state, handling := true }
  | some (call, round) => (s.resume call round id frame).proceed call token

-- The session id of a request's audit member, where its schema takes it.
def issuedSession (frame : JsonRpcFrame) : Option JsString :=
  if auditRequestMetaSchema (frame.metaParam EXTENSION_ID) = none then
    match (frame.metaParam EXTENSION_ID).bind fun value => value.get Fields.SESSION_ID with
    | some (.str sessionId) => some sessionId
    | _ => none
  else none

def newCall (frame : JsonRpcFrame) (id : RequestId) (declared : Option AuditCapability) (session : Option Nat)
    (numbering : Nat) : ToolCall :=
  { originalId := id, modern := isModern frame, hostCapability := declared, session := session
    taskAugmented := isTaskAugmented frame, numbering := numbering, ids := [id], currentId := some id
    negotiated := false, buffered := [], nextAwaiting := .empty, round := none, roundScheduled := false
    finished := false, cancelled := false, held := none, accepted := [], emitted := [], answer := none, leftover := [] }

def declaredBy (frame : JsonRpcFrame) : Option AuditCapability :=
  if isModern frame then capabilityOf (frame.metaParam CLIENT_CAPABILITIES_META_KEY) else s.handshakeCapability

-- The call and the sessions after `#takeCall` tracked a new request.
def opened (frame : JsonRpcFrame) (id : RequestId) : ToolCall × SessionTable :=
  let declared := s.declaredBy frame
  match issuedSession frame with
  | none =>
      (newCall frame id declared none s.sessions.numberings,
        { s.sessions with numberings := s.sessions.numberings + 1 })
  | some sessionId =>
      let acquired := s.sessions.acquire sessionId declared
      (newCall frame id acquired.2.2.hostCapability (some acquired.2.1) acquired.2.2.numbering, acquired.1)

def takeCall (frame : JsonRpcFrame) (id : RequestId) : Transport :=
  { (s.forgetCancelled id).deliver frame with
    calls := s.calls ++ [(s.opened frame id).1]
    sessions := (s.opened frame id).2
    tracked := s.tracked.set id s.calls.length }

-- The tracked call that was served under an id.
def servedUnder (id : RequestId) : Option Nat :=
  (s.tracked.entries.find? fun entry => (s.calls[entry.2]?).any fun found => id ∈ found.ids).map Prod.snd

-- `#cancel`
def cancel (frame : JsonRpcFrame) : Transport :=
  match (RequestId.ofJson (frame.param REQUEST_ID)).bind s.servedUnder with
  | none => s.deliver frame
  | some call =>
      let released := (s.alter call fun found => { found with cancelled := true }).release call true
      match s.calls[call]? with
      | none => released
      | some found =>
          if found.finished then released
          else
            let remembered := { released with
              cancelled := (released.forgetCancelled found.originalId).cancelled ++ [found.originalId] }
            remembered.deliver { frame with
              params := some (withMember (frame.params.getD []) REQUEST_ID found.originalId.toJson) }

-- The answer to a §6.5 attempt.
def takeAnswer (frame : JsonRpcFrame) (name : JsString) : Transport :=
  match s.pending.get name with
  | none => s
  | some attempt =>
      let response := match frame.error, frame.result with
        | none, some members => readResponse (.obj members)
        | _, _ => unavailableResponse
      { s with pending := s.pending.delete name, attempts := settle s.attempts attempt response }

def takeHandshake (frame : JsonRpcFrame) : Transport :=
  let declared :=
    if frame.method = some DISCOVER_METHOD then frame.metaParam CLIENT_CAPABILITIES_META_KEY
    else frame.param "capabilities"
  { s.deliver frame with
    handshakeId := frame.id, handshakeSeen := true, handshakeCapability := capabilityOf declared }

-- The id under which this seam sent an attempt.
def ownId : RequestId → Option JsString
  | .str name => if startsWith name ID_PREFIX then some name else none
  | .num _ => none

-- `inbound`, up to the `await` of a send.
def inbound (frame : JsonRpcFrame) (token : JsString) : Transport :=
  match frame.method, frame.id with
  | some method, some id =>
      if method = INITIALIZE_METHOD ∨ method = DISCOVER_METHOD then s.takeHandshake frame
      else if method = TOOLS_CALL_METHOD then
        match roundToken frame with
        | some state => s.takeRetry frame id state token
        | none => s.takeCall frame id
      else s.deliver frame
  | none, some id =>
      match ownId id with
      | some name => s.takeAnswer frame name
      | none => s.deliver frame
  | some method, none => if method = CANCELLED_METHOD then s.cancel frame else s.deliver frame
  | none, none => s.deliver frame

-- What `negotiate` of a call answers, and the pinning.
def negotiate (call : Nat) (found : ToolCall) (offered : AuditCapability) : Except JsError (NegotiationResult × Transport) :=
  if !sameCapability offered config.declares then .error (.error "this transport declared a different capability (§6.1)")
  else if !found.modern && !s.handshakeSeen then
    .error (.error "the peer has not sent `initialize` yet; negotiate after the handshake (§6.1)")
  else
    match found.session.bind fun session => (s.sessions.heap[session]?).bind ToolSession.negotiation with
    | some result => .ok (result, s.alter call fun found => { found with negotiated := result.negotiated })
    | none =>
        let compared := Mcp.negotiate found.hostCapability offered
        let result :=
          if compared.negotiated && (found.session.isNone || found.taskAugmented) then
            { compared with outcome := .noSession, negotiated := false }
          else compared
        let pinned := { s with sessions := (found.session.map fun session => s.sessions.pin session result).getD s.sessions }
        .ok (result, pinned.alter call fun found => { found with negotiated := result.negotiated })

def newId : JsString := ID_PREFIX ++ JsString.mk (ascii (toString (s.nextId + 1)))

def messageFrame (id : Option RequestId) (method : JsString) (event : ToolEvent) : JsonRpcFrame :=
  { id := id, method := some method, params := some event.members, result := none, error := none }

-- What a handler emits while its call has not concluded is on record, whatever comes of it.
def note (call : Nat) (event : ToolEvent) : Transport :=
  s.alter call fun found => { found with emitted := if found.finished then found.emitted else found.emitted ++ [event] }

-- `_sendAttempt`, up to the wait for the answer.
def sendAttempt (call : Nat) (found : ToolCall) (event : ToolEvent) : Transport :=
  if found.finished || found.cancelled then s
  else
    let attempt := s.attempts.length
    let waiting := { s with attempts := s.attempts ++ [({ call := call, event := event, settlement := none, abandoned := false } : Attempt)] }
    if found.modern then
      (waiting.alter call fun found =>
        { found with
          buffered := found.buffered ++ [event]
          nextAwaiting := found.nextAwaiting.set event.id attempt }).scheduleRound call
    else
      let name := s.newId
      { waiting.write (.message call event (messageFrame (some (.str name)) ATTEMPT_METHOD event)) with
        nextId := s.nextId + 1, pending := s.pending.set name attempt }

-- `_sendOutcome`
def sendOutcome (call : Nat) (found : ToolCall) (event : ToolEvent) : Transport :=
  if found.cancelled || found.finished then s
  else if found.modern then
    s.alter call fun found =>
      { found with buffered := found.buffered ++ [event], accepted := found.accepted.erase event.id }
  else s.write (.message call event (messageFrame none OUTCOME_METHOD event))

-- The timer of `#scheduleRound`.
def roundTimer (call : Nat) (found : ToolCall) (token : JsString) : Transport :=
  let fired := s.alter call fun found => { found with roundScheduled := false }
  if found.finished || found.cancelled then fired else fired.endRound call token

def abandon (attempt : Nat) : Transport :=
  { s with attempts := s.attempts.modify attempt fun found => { found with abandoned := true } }

-- The end of a wait that timed out, or whose message could not be sent: `#pending` forgets it.
def withdraw (attempt : Nat) : Transport :=
  { s with pending := ⟨s.pending.entries.filter fun entry => entry.2 ≠ attempt⟩ }

def giveUp (attempt : Nat) : Transport :=
  { s.withdraw attempt with attempts := settle s.attempts attempt unavailableResponse }

-- `onConnectionLost`
def connectionLost : Transport :=
  let released := s.tracked.entries.foldl
    (fun s entry => (s.alter entry.2 fun found => { found with cancelled := true }).release entry.2 true) s
  { released with
    attempts := unanswered released.attempts released.pending
    pending := .empty
    sessions := released.sessions.dropAll
    cancelled := [] }

end Transport

end AuditableMcp.Mcp
