import Mathlib.Logic.Function.Basic
import AuditableMcp.Mcp.Frames

-- The host side of the wire: `McpAuditReceiver` (mcp/seam.ts). The audit work of a session is
-- queued, one job behind the other, and what a job waits for settles at any time.
namespace AuditableMcp.Mcp.HostSeam

def INPUT_REQUESTS : JsString := "inputRequests"

def NO_CALL_IN_FLIGHT : JsString := ""

def MAX_ROUNDS_PER_CALL : Nat := 256

def INTERNAL_ERROR : Json := .num (.fin (-32603))
def INVALID_REQUEST : Json := .num (.fin (-32600))

def ROUND_LIMIT_MESSAGE : JsString := "the tool exceeded the limit of 256 audit rounds for one call"
def NO_REQUEST_STATE_MESSAGE : JsString := "the tool asked for input without a requestState (§6.4)"
def RETRY_NOT_SENT_MESSAGE : JsString := "the retry of an audit round could not be sent (§6.4)"
def NOTIFICATION_MESSAGE : JsString := "audit/outcome is a notification (§6.5)"

structure HostCall where
  params : Members
  sessionId : JsString
  clientId : RequestId
  currentId : RequestId
  rounds : Nat
  held : Option (JsString × Members)
  -- The request the tool is answering went with a signal that can cancel it.
  watched : Bool
  ended : Bool
  closed : Bool

-- `#decision`: an attempt at the endpoint, and what the promise came to.
structure Decision where
  event : Json
  sessionId : JsString
  answer : Option Json

inductive EndpointCall where
  | openSession (sessionId : JsString)
  | handleAttempt (event : Json) (sessionId : JsString)
  | handleOutcome (event : Json) (sessionId : JsString)
  | closeSession (sessionId : JsString)

-- What a job comes to once its outcomes are sealed.
inductive Ending where
  | nothing
  | close
  | finish (frame : JsonRpcFrame)

-- What `#inSession` queues. Of a round that was cut off, an outcome may be being sealed.
inductive Job where
  | attempt (id : RequestId) (event : Json)
  | outcome (event : Json)
  | seals (call : Nat) (inProgress : Bool) (events : List Json) (ending : Ending)
  | follow (call : Nat) (frame : JsonRpcFrame)

-- `#processRound` at an `await`: the attempt being decided, or else an outcome is being
-- sealed, and the items after it.
structure RoundWork where
  call : Nat
  frame : JsonRpcFrame
  decide : Bool
  responses : Members
  awaiting : Option (JsString × Nat)
  events : List Json
  expired : Bool

-- What the job that runs waits for.
inductive Doing where
  | deciding (id : RequestId) (event : Json) (decision : Nat)
  | sealing (call : Nat) (events : List Json) (ending : Ending)
  | processing (work : RoundWork)
  | retrying (call : Nat)
  | closing (call : Nat) (forward : Option JsonRpcFrame)
  -- The job is over when it settles.
  | ending

structure Chain where
  doing : Option Doing
  jobs : List Job

-- What the seam hands to the wrapped transport, and what it shows the client's session.
inductive Sent where
  | passed (frame : JsonRpcFrame)
  | opening (call : Nat) (frame : JsonRpcFrame)
  | resumed (call : Nat) (frame : JsonRpcFrame)
  | retry (call : Nat) (frame : JsonRpcFrame)
  | answer (sessionId : JsString) (event response : Json) (frame : JsonRpcFrame)
  | refusal (frame : JsonRpcFrame)

inductive Shown where
  | passed (frame : JsonRpcFrame)
  | answer (call : Nat) (frame : JsonRpcFrame)

structure Receiver where
  heap : List HostCall
  -- `#calls`, `#bySession`, `#unclosed`, `#held`, `#chains`, `#endedIds`
  calls : OrderedMap RequestId Nat
  bySession : OrderedMap JsString Nat
  unclosed : OrderedMap JsString Nat
  held : OrderedMap JsString Nat
  chains : JsString → Chain
  endedIds : List RequestId
  handshakeId : Option RequestId
  handshakeRead : Bool
  nextId : Nat
  decisions : List Decision
  -- Frames on their way to the session, behind the `await` of `receive`.
  arriving : List JsonRpcFrame
  -- The lost connections that still wait for the queues, and the closings outside of these.
  losing : Nat
  outside : List Nat
  -- What the endpoint was asked, what was sent and what was shown, oldest first.
  asked : List EndpointCall
  sent : List Sent
  delivered : List Shown

section Members

-- `{ ...value }`
def spread : Option Json → Members
  | some (.obj members) => members
  | some (.arr items) => items.zipIdx.map fun item => (JsString.mk (ascii (toString item.2)), item.1)
  | some (.str text) => text.units.zipIdx.map fun item => (JsString.mk (ascii (toString item.2)), .str ⟨[item.1]⟩)
  | _ => []

def declareInto (capabilities : Members) (capability : AuditCapability) : Members :=
  let extensions := withMember (extensionsOf (some (.obj capabilities))) EXTENSION_ID (capabilityJson capability)
  withMember capabilities EXTENSIONS_MEMBER (.obj extensions)

-- `#declared`
def declared (capability : AuditCapability) (method : JsString) (params : Members) : Members :=
  if method = INITIALIZE_METHOD then
    withMember params "capabilities" (.obj (declareInto (spread (Json.lookup params "capabilities")) capability))
  else
    let carried := Json.lookup (metaOf (some (.obj params))) CLIENT_CAPABILITIES_META_KEY
    if carried.any Json.isObject then
      withMember params META (.obj (withMember (metaOf (some (.obj params))) CLIENT_CAPABILITIES_META_KEY
        (.obj (declareInto (spread carried) capability))))
    else params

-- A `_meta` that is not an object.
def metaIsOther (params : Members) : Bool :=
  match Json.lookup params META with
  | none => false
  | some (.obj _) => false
  | some _ => true

def hasKeys : Option Json → Bool
  | some (.obj members) => !members.isEmpty
  | some (.arr items) => !items.isEmpty
  | some (.str text) => !text.units.isEmpty
  | _ => false

-- `#eventsOf`
def eventsOf (result : Members) : List Json :=
  match (Json.lookup (metaOf (some (.obj result))) EXTENSION_ID).bind fun carried => carried.get Fields.EVENTS with
  | some (.arr events) => events
  | _ => []

def withoutMember (members : Members) (name : JsString) : Members := members.filter fun member => member.1 ≠ name

def withoutAudit (frame : JsonRpcFrame) : JsonRpcFrame :=
  match frame.result with
  | none => frame
  | some result =>
      let carried := metaOf (some (.obj result))
      if (Json.lookup carried EXTENSION_ID).isNone then frame
      else
        let rest := withoutMember carried EXTENSION_ID
        let bare := withoutMember result META
        { frame with result := some (if rest.isEmpty then bare else bare ++ [(META, .obj rest)]) }

def requestState (frame : JsonRpcFrame) : Option JsString :=
  match frame.result.bind fun result => Json.lookup result REQUEST_STATE with
  | some (.str state) => some state
  | _ => none

def inputRequests (frame : JsonRpcFrame) : Bool := hasKeys (frame.result.bind fun result => Json.lookup result INPUT_REQUESTS)

def concludes (frame : JsonRpcFrame) : Bool := frame.error.isSome || !frame.continues

def eventParam (frame : JsonRpcFrame) : Json := .obj (frame.params.getD [])

def errorFrame (id : RequestId) (code : Json) (message : JsString) : JsonRpcFrame :=
  { id := some id, method := none, params := none, result := none
    error := some (.obj [("code", code), ("message", .str message)]) }

def responseFrame (id : RequestId) (response : Json) : JsonRpcFrame :=
  { id := some id, method := none, params := none, error := none, result := some (membersOf (some response)) }

end Members

namespace RoundWork

variable (work : RoundWork)

-- The `rest` of a round that was cut off: whether an outcome is being sealed, and those after it.
def leftover (inProgress : Bool) : Option (Bool × List Json) :=
  if work.expired = false ∧ work.events = [] then none
  else some (inProgress, work.events.filter fun event => (answerableAttempt event).isNone)

-- The attempts the loop did not come to are answered too.
def answers : Members :=
  if work.decide then
    (work.events.filterMap answerableAttempt).foldl (fun responses id => assign responses id unavailableResponse)
      work.responses
  else work.responses

def answered (id : JsString) (response : Json) : RoundWork :=
  { work with responses := assign work.responses id response, awaiting := none }

end RoundWork

namespace Receiver

variable (capability : AuditCapability) (s : Receiver)

def empty : Receiver :=
  { heap := [], calls := .empty, bySession := .empty, unclosed := .empty, held := .empty, chains := fun _ => ⟨none, []⟩
    endedIds := [], handshakeId := none, handshakeRead := false, nextId := 0, decisions := [], arriving := [], losing := 0
    outside := [], asked := [], sent := [], delivered := [] }

def alter (call : Nat) (change : HostCall → HostCall) : Receiver := { s with heap := s.heap.modify call change }

def ask (call : EndpointCall) : Receiver := { s with asked := s.asked ++ [call] }

def write (sent : Sent) : Receiver := { s with sent := s.sent ++ [sent] }

def deliver (shown : Shown) : Receiver := { s with delivered := s.delivered ++ [shown] }

-- `#inSession`
def inSession (sessionId : JsString) (job : Job) : Receiver :=
  { s with
    chains := Function.update s.chains sessionId ⟨(s.chains sessionId).doing, (s.chains sessionId).jobs ++ [job]⟩ }

-- The first job is taken up.
def begins (sessionId : JsString) (doing : Doing) : Receiver :=
  { s with chains := Function.update s.chains sessionId ⟨some doing, (s.chains sessionId).jobs.tail⟩ }

def goesOn (sessionId : JsString) (doing : Option Doing) : Receiver :=
  { s with chains := Function.update s.chains sessionId ⟨doing, (s.chains sessionId).jobs⟩ }

-- `#unhold`, as far as `#held` goes.
def heldWithout (call : Nat) (found : HostCall) : OrderedMap JsString Nat :=
  match found.held with
  | none => s.held
  | some (state, _) => if s.held.get state = some call then s.held.delete state else s.held

def isLive (call : Nat) : Bool := (s.heap[call]?).any fun found => !found.ended

-- `#detach`
def detach (call : Nat) : Receiver :=
  match s.heap[call]? with
  | none => s
  | some found =>
      if found.ended then s
      else
        { s with
          heap := s.heap.modify call fun found => { found with ended := true, held := none }
          held := s.heldWithout call found
          calls := if s.calls.get found.currentId = some call then s.calls.delete found.currentId else s.calls
          bySession :=
            if s.bySession.get found.sessionId = some call then s.bySession.delete found.sessionId else s.bySession }

-- The call ends, and its session closes behind the work already queued.
def endBehind (call : Nat) : Receiver :=
  match s.heap[call]? with
  | none => s
  | some found => (s.detach call).inSession found.sessionId (.seals call false [] .close)

def endOnce (call : Nat) : Receiver := if s.isLive call then s.endBehind call else s

def forwarded (call : Nat) (forward : Option JsonRpcFrame) : Receiver :=
  { s with delivered := s.delivered ++ (forward.map fun frame => Shown.answer call frame).toList }

-- `#close`, and what the job shows the session after it.
def close (sessionId : JsString) (call : Nat) (forward : Option JsonRpcFrame) : Receiver :=
  match s.heap[call]? with
  | none => s.goesOn sessionId none
  | some found =>
      if found.closed then (s.forwarded call forward).goesOn sessionId none
      else
        ((s.alter call fun found => { found with closed := true }).ask (.closeSession found.sessionId)).goesOn sessionId
          (some (.closing call forward))

-- `#end`
def endNow (sessionId : JsString) (call : Nat) (forward : JsonRpcFrame) : Receiver :=
  if s.isLive call then (s.detach call).close sessionId call (some forward)
  else (s.forwarded call (some forward)).goesOn sessionId none

-- The next of the outcomes a job seals, or what the job comes to.
def sealNext (sessionId : JsString) (call : Nat) (events : List Json) (ending : Ending) : Receiver :=
  match events with
  | event :: rest => (s.ask (.handleOutcome event sessionId)).goesOn sessionId (some (.sealing call rest ending))
  | [] =>
      match ending with
      | .nothing => s.goesOn sessionId none
      | .close => s.close sessionId call none
      | .finish frame =>
          match s.heap[call]? with
          | none => s.goesOn sessionId none
          | some found =>
              if found.ended then s.goesOn sessionId none
              else s.endNow sessionId call (withoutAudit { frame with id := some found.clientId })

def takeDecision (event : Json) (sessionId : JsString) : Receiver :=
  { s.ask (.handleAttempt event sessionId) with decisions := s.decisions ++ [⟨event, sessionId, none⟩] }

def evict (call : Nat) : Receiver := if s.held.entries.length ≤ MAX_IDLE_SESSIONS then s else s.endOnce call

def holdRound (call : Nat) (found : HostCall) (state : JsString) (responses : Members) : Receiver :=
  { s.alter call fun found => { found with held := some (state, responses) } with
    held := (s.heldWithout call found).set state call }

-- `#hold`
def hold (call : Nat) (state : JsString) (responses : Members) : Receiver :=
  let freed := match s.held.get state with
    | none => s
    | some previous => if previous = call then s else s.endOnce previous
  match freed.heap[call]? with
  | none => freed
  | some found =>
      let kept := freed.holdRound call found state responses
      kept.held.entries.foldl (fun s entry => s.evict entry.2) kept

def newId : JsString := ID_PREFIX ++ JsString.mk (ascii (toString (s.nextId + 1)))

-- The retry of a round that asks for nothing but the audit answers.
def retry (sessionId : JsString) (call : Nat) (found : HostCall) (state : JsString) (responses : Members) : Receiver :=
  let id : RequestId := .str s.newId
  let frame : JsonRpcFrame :=
    { id := some id, method := some TOOLS_CALL_METHOD, result := none, error := none
      params := some (retryParams found.params state found.sessionId responses) }
  ({ s.alter call fun found => { found with currentId := id } with
      nextId := s.nextId + 1
      calls := (s.calls.delete found.currentId).set id call
      sent := s.sent ++ [Sent.retry call frame] }).goesOn sessionId (some (.retrying call))

-- The message a call that gets no retry is answered with.
def refusalMessage (frame : JsonRpcFrame) : JsString :=
  if (requestState frame).isSome then ROUND_LIMIT_MESSAGE else NO_REQUEST_STATE_MESSAGE

-- The rest of `#follow` once `#processRound` is over.
def roundOver (sessionId : JsString) (work : RoundWork) (inProgress : Bool) : Receiver :=
  match s.heap[work.call]? with
  | none => s.goesOn sessionId none
  | some found =>
      if found.ended then
        match work.leftover inProgress with
        | none => s.goesOn sessionId none
        | some (sealing, outcomes) =>
            if sealing then s.goesOn sessionId (some (.sealing work.call outcomes .nothing))
            else s.sealNext sessionId work.call outcomes .nothing
      else if !work.decide then
        let left := (work.leftover inProgress).getD (false, [])
        (((s.detach work.call).inSession sessionId (.seals work.call left.1 left.2 .close)).deliver
          (.answer work.call (errorFrame found.clientId INTERNAL_ERROR (refusalMessage work.frame)))).goesOn sessionId none
      else
        let queued := match work.leftover inProgress with
          | none => s
          | some left => s.inSession sessionId (.seals work.call left.1 left.2 .nothing)
        let state := (requestState work.frame).getD ""
        if inputRequests work.frame then
          ((queued.hold work.call state work.answers).deliver
            (.answer work.call (withoutAudit { work.frame with id := some found.clientId }))).goesOn sessionId none
        else queued.retry sessionId work.call found state work.answers

-- The loop of `#processRound`, from one item on.
def processFrom (sessionId : JsString) (work : RoundWork) (events : List Json) : Receiver :=
  match events with
  | [] => s.roundOver sessionId { work with events := [] } false
  | event :: rest =>
      if work.expired then s.roundOver sessionId { work with events := event :: rest } false
      else
        match answerableAttempt event with
        | some id =>
            if work.decide then
              (s.takeDecision event sessionId).goesOn sessionId
                (some (.processing { work with awaiting := some (id, s.decisions.length), events := rest }))
            else processFrom sessionId work rest
        | none =>
            (s.ask (.handleOutcome event sessionId)).goesOn sessionId
              (some (.processing { work with awaiting := none, events := rest }))

def beginRound (sessionId : JsString) (call : Nat) (frame : JsonRpcFrame) (decide : Bool) : Receiver :=
  (s.alter call fun found => { found with rounds := found.rounds + 1 }).goesOn sessionId
    (some (.processing ⟨call, frame, decide, [], none, [], false⟩))

-- `#follow`, up to its first `await`
def follow (sessionId : JsString) (call : Nat) (frame : JsonRpcFrame) : Receiver :=
  match s.heap[call]? with
  | none => s.goesOn sessionId none
  | some found =>
      if found.ended then s.goesOn sessionId none
      else if frame.error.isSome then s.endNow sessionId call { frame with id := some found.clientId }
      else
        let events := eventsOf (frame.result.getD [])
        if !frame.continues then s.sealNext sessionId call events (.finish frame)
        else
          let decide := decide (found.rounds + 1 ≤ MAX_ROUNDS_PER_CALL) && (requestState frame).isSome
          (s.beginRound sessionId call frame decide).processFrom sessionId
            ⟨call, frame, decide, [], none, [], false⟩ events

def start (sessionId : JsString) (job : Job) : Receiver :=
  match job with
  | .attempt id event =>
      ((s.begins sessionId .ending).takeDecision event sessionId).goesOn sessionId
        (some (.deciding id event s.decisions.length))
  | .outcome event => (s.begins sessionId .ending).ask (.handleOutcome event sessionId)
  | .seals call inProgress events ending =>
      let begun := s.begins sessionId (.sealing call events ending)
      if inProgress then begun else begun.sealNext sessionId call events ending
  | .follow call frame => (s.begins sessionId .ending).follow sessionId call frame

def answerAt (decision : Nat) : Option Json := (s.decisions[decision]?).bind Decision.answer

def reply (sessionId : JsString) (id : RequestId) (event response : Json) : Receiver :=
  (s.write (.answer sessionId event response (responseFrame id response))).goesOn sessionId (some .ending)

-- The session is closed at the endpoint.
def forget (call : Nat) : Receiver :=
  match s.heap[call]? with
  | none => s
  | some found => { s with unclosed := s.unclosed.delete found.sessionId }

-- What the job that runs waits for has come.
def settle (sessionId : JsString) : Doing → Option Receiver
  | .deciding id event decision => (s.answerAt decision).map fun response => s.reply sessionId id event response
  | .sealing call events ending => some (s.sealNext sessionId call events ending)
  | .processing work =>
      match work.awaiting with
      | some (id, decision) =>
          (s.answerAt decision).map fun response => s.processFrom sessionId (work.answered id response) work.events
      | none => some (s.processFrom sessionId work work.events)
  | .retrying _ => some (s.goesOn sessionId none)
  | .closing call forward => some (((s.forget call).forwarded call forward).goesOn sessionId none)
  | .ending => some (s.goesOn sessionId none)

-- The bound on the wait comes first.
def timeOut (sessionId : JsString) : Doing → Option Receiver
  | .deciding id event _ => some (s.reply sessionId id event unavailableResponse)
  | .processing work =>
      if !work.expired then none
      else
        match work.awaiting with
        | some (id, _) => some (s.roundOver sessionId (work.answered id unavailableResponse) false)
        | none => some (s.roundOver sessionId work true)
  | _ => none

def relatedCall (related : Option RequestId) : Option HostCall :=
  (related.bind s.calls.get).bind fun call => s.heap[call]?

-- `#expectedSession`
def expectedSession (event : Json) (related : Option RequestId) : JsString :=
  match s.relatedCall related with
  | some found => found.sessionId
  | none =>
      match event.get Fields.SESSION_ID with
      | some (.str sessionId) => if s.bySession.has sessionId then sessionId else NO_CALL_IN_FLIGHT
      | _ => NO_CALL_IN_FLIGHT

-- `receive`, up to the `await` of `inbound`
def receive (frame : JsonRpcFrame) : Receiver :=
  if frame.method = none ∧ frame.id.isSome ∧ frame.id = s.handshakeId then
    { s with handshakeId := none, handshakeRead := true, arriving := s.arriving ++ [frame] }
  else
    match frame.method, frame.id with
    | some method, some id =>
        if method = OUTCOME_METHOD then s.write (.refusal (errorFrame id INVALID_REQUEST NOTIFICATION_MESSAGE))
        else { s with arriving := s.arriving ++ [frame] }
    | some method, none => if method = ATTEMPT_METHOD then s else { s with arriving := s.arriving ++ [frame] }
    | none, _ => { s with arriving := s.arriving ++ [frame] }

-- The answer of a call reaches the client at once; what it carries is sealed in the queue.
def concludeCall (call : Nat) (found : HostCall) (frame : JsonRpcFrame) : Receiver :=
  let events := if frame.error.isNone then (frame.result.map eventsOf).getD [] else []
  ((s.detach call).inSession found.sessionId (.seals call false events .close)).deliver
    (.answer call (withoutAudit { frame with id := some found.clientId }))

def takeResponse (frame : JsonRpcFrame) (id : RequestId) : Receiver :=
  match (s.calls.get id).bind fun call => (s.heap[call]?).map fun found => (call, found) with
  | some (call, found) =>
      if found.currentId = id then
        if concludes frame && !found.ended then s.concludeCall call found frame
        else s.inSession found.sessionId (.follow call frame)
      else if id ∈ s.endedIds then { s with endedIds := s.endedIds.filter fun other => other ≠ id }
      else s.receive frame
  | none =>
      if id ∈ s.endedIds then { s with endedIds := s.endedIds.filter fun other => other ≠ id } else s.receive frame

-- `enqueue`. The transport may say which request of the host's an inbound one is related to.
def enqueue (frame : JsonRpcFrame) (related : Option RequestId) : Receiver :=
  match frame.method, frame.id with
  | some method, some id =>
      if method = ATTEMPT_METHOD then
        s.inSession (s.expectedSession (eventParam frame) related) (.attempt id (eventParam frame))
      else s.receive frame
  | some method, none =>
      if method = OUTCOME_METHOD then
        s.inSession (s.expectedSession (eventParam frame) related) (.outcome (eventParam frame))
      else s.receive frame
  | none, some id => s.takeResponse frame id
  | none, none => s.receive frame

-- `#dropLater`
def dropLater (id : RequestId) : Receiver := { s with endedIds := (s.endedIds.filter fun other => other ≠ id) ++ [id] }

def callOf (clientId : RequestId) : Option (Nat × HostCall) :=
  (s.calls.entries.find? fun entry => (s.heap[entry.2]?).any fun found => found.clientId = clientId).bind fun entry =>
    (s.heap[entry.2]?).map fun found => (entry.2, found)

-- `#cancel`
def cancel (frame : JsonRpcFrame) : Receiver :=
  match (RequestId.ofJson (frame.param REQUEST_ID)).bind s.callOf with
  | none => s.write (.passed frame)
  | some (call, found) =>
      ((s.endBehind call).dropLater found.currentId).write (.passed
        (if found.currentId = found.clientId then frame
         else { frame with params := some (withMember (frame.params.getD []) REQUEST_ID found.currentId.toJson) }))

-- The signal of a call's request is aborted.
def abandon (call : Nat) : Receiver :=
  match s.heap[call]? with
  | none => s
  | some found => if found.ended then s else ((s.endBehind call).dropLater found.currentId)

-- The round that a client's retry answers.
def heldFor (params : Members) : Option (Nat × HostCall × Members) :=
  match Json.lookup params REQUEST_STATE with
  | some (.str state) =>
      (s.held.get state).bind fun call => (s.heap[call]?).bind fun found => found.held.map fun held => (call, found, held.2)
  | _ => none

def withAudit (params : Members) (member : Json) : Members :=
  withMember params META (.obj (withMember (metaOf (some (.obj params))) EXTENSION_ID member))

-- The client's own retry of a round that asked it for input.
def resume (call : Nat) (found : HostCall) (responses : Members) (frame : JsonRpcFrame) (id : RequestId)
    (params : Members) (signal : Bool) : Receiver :=
  { s.alter call fun found => { found with held := none, clientId := id, currentId := id, watched := signal } with
    held := s.heldWithout call found
    calls := (s.calls.delete found.currentId).set id call
    sent := s.sent ++ [.resumed call { frame with params := some (withAudit params (auditMember found.sessionId responses)) }] }

-- A `tools/call` under a new audit session.
def openCall (frame : JsonRpcFrame) (id : RequestId) (params : Members) (sessionId : JsString) (signal : Bool) : Receiver :=
  let issued := withAudit params (.obj [(Fields.SESSION_ID, .str sessionId)])
  let call : HostCall :=
    { params := issued, sessionId := sessionId, clientId := id, currentId := id, rounds := 0, held := none
      watched := signal, ended := false, closed := false }
  { s.ask (.openSession sessionId) with
    heap := s.heap ++ [call]
    calls := s.calls.set id s.heap.length
    bySession := s.bySession.set sessionId s.heap.length
    unclosed := s.unclosed.set sessionId s.heap.length
    sent := s.sent ++ [.opening s.heap.length { frame with params := some issued }] }

def shakes (method : JsString) (id : RequestId) : Receiver :=
  if (method = INITIALIZE_METHOD ∨ method = DISCOVER_METHOD) ∧ !s.handshakeRead then { s with handshakeId := some id } else s

-- `outbound`: what the client's session writes, and the id a new session would have.
def outbound (frame : JsonRpcFrame) (sessionId : JsString) (signal : Bool) : Receiver :=
  match frame.method, frame.id with
  | some method, none => if method = CANCELLED_METHOD then s.cancel frame else s.write (.passed frame)
  | some method, some id =>
      let s := s.shakes method id
      match frame.params with
      | none => s.write (.passed frame)
      | some given =>
          if method = TOOLS_CALL_METHOD ∧ metaIsOther given then s.write (.passed frame)
          else
            let params := declared capability method given
            if method ≠ TOOLS_CALL_METHOD then s.write (.passed { frame with params := some params })
            else
              match s.heldFor params with
              | some (call, found, responses) => s.resume call found responses frame id params signal
              | none =>
                  if isTaskAugmented { frame with params := some params } then
                    s.write (.passed { frame with params := some params })
                  else s.openCall frame id params sessionId signal
  | none, _ => s.write (.passed frame)

def closeOutside (call : Nat) : Receiver :=
  match s.heap[call]? with
  | none => s
  | some found =>
      if found.closed then s
      else
        { (s.alter call fun found => { found with closed := true }).ask (.closeSession found.sessionId) with
          outside := s.outside ++ [call] }

-- `onConnectionLost`, up to the wait for the queues
def connectionLost : Receiver :=
  { s.bySession.entries.foldl (fun s entry => s.endBehind entry.2) s with calls := .empty, losing := s.losing + 1 }

-- And after it: every session is closed regardless.
def closeAll : Receiver :=
  { s.unclosed.entries.foldl (fun s entry => s.closeOutside entry.2) s with losing := s.losing - 1 }

end Receiver

inductive ReceiverAction where
  -- The client's session writes a frame; the endpoint would issue the session id.
  | sends (frame : JsonRpcFrame) (sessionId : JsString) (signal : Bool)
  | arrives (frame : JsonRpcFrame) (related : Option RequestId)
  | delivers
  | starts (sessionId : JsString)
  | settles (sessionId : JsString)
  | timesOut (sessionId : JsString)
  | expires (sessionId : JsString)
  -- The send of a retry, or the endpoint's `closeSession`, rejects.
  | fails (sessionId : JsString)
  | rejects (sessionId : JsString)
  | decides (decision : Nat) (answer : Except JsError Json)
  | aborts (call : Nat)
  | forgets (id : RequestId)
  | disconnects
  | closesRegardless
  | closedOutside (call : Nat)

namespace Receiver

variable (capability : AuditCapability) (s : Receiver)

-- A session id that `openSession` may issue.
def fresh (sessionId : JsString) : Bool :=
  sessionId ≠ NO_CALL_IN_FLIGHT && s.heap.all fun found => found.sessionId ≠ sessionId

-- What an action comes to, where it can be taken.
def perform : ReceiverAction → Option Receiver
  | .sends frame sessionId signal =>
      if s.fresh sessionId then some (s.outbound capability frame sessionId signal) else none
  | .arrives frame related => some (s.enqueue frame related)
  | .delivers =>
      match s.arriving with
      | [] => none
      | frame :: rest => some { s.deliver (.passed frame) with arriving := rest }
  | .starts sessionId =>
      match s.chains sessionId with
      | ⟨none, job :: _⟩ => some (s.start sessionId job)
      | _ => none
  | .settles sessionId => (s.chains sessionId).doing.bind (s.settle sessionId)
  | .timesOut sessionId => (s.chains sessionId).doing.bind (s.timeOut sessionId)
  | .expires sessionId =>
      match (s.chains sessionId).doing with
      | some (.processing work) => some (s.goesOn sessionId (some (.processing { work with expired := true })))
      | _ => none
  | .fails sessionId =>
      match (s.chains sessionId).doing with
      | some (.retrying call) =>
          match s.heap[call]? with
          | none => none
          | some found =>
              if found.ended then some (s.goesOn sessionId none)
              else some (s.endNow sessionId call (errorFrame found.clientId INTERNAL_ERROR RETRY_NOT_SENT_MESSAGE))
      | _ => none
  | .rejects sessionId =>
      match (s.chains sessionId).doing with
      | some (.closing call _) => some ((s.forget call).goesOn sessionId none)
      | _ => none
  | .decides decision answer =>
      match s.decisions[decision]? with
      | some ⟨event, sessionId, none⟩ =>
          some { s with decisions := s.decisions.set decision ⟨event, sessionId, some (Mcp.decision answer)⟩ }
      | _ => none
  | .aborts call => if (s.heap[call]?).any HostCall.watched then some (s.abandon call) else none
  | .forgets id => if id ∈ s.endedIds then some { s with endedIds := s.endedIds.filter fun other => other ≠ id } else none
  | .disconnects => some s.connectionLost
  | .closesRegardless => if s.losing = 0 then none else some s.closeAll
  | .closedOutside call =>
      if call ∈ s.outside then some { s.forget call with outside := s.outside.erase call } else none

end Receiver

-- The states a new seam reaches.
inductive ReceiverRun (capability : AuditCapability) : List ReceiverAction → Receiver → Prop
  | start : ReceiverRun capability [] .empty
  | step {actions : List ReceiverAction} {action : ReceiverAction} {s s' : Receiver}
      (hrun : ReceiverRun capability actions s) (hperform : s.perform capability action = some s') :
      ReceiverRun capability (actions ++ [action]) s'

end AuditableMcp.Mcp.HostSeam
