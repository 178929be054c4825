import AuditableMcp.Mcp.Settlements

-- What a step of the seam comes to, said once: the moves of which each is a sequence.
namespace AuditableMcp.Mcp

-- What no call is answered with.
def Written.plain : Written → Prop
  | .refusal _ => True
  | .passed _ => True
  | _ => False

-- What leaves the calls, the attempts, the rounds and the sessions as they are.
structure Aside (s s' : Transport) : Prop where
  calls : s'.calls = s.calls
  attempts : s'.attempts = s.attempts
  sessions : s'.sessions = s.sessions
  tracked : s'.tracked = s.tracked
  rounds : s'.rounds = s.rounds
  minted : s'.minted = s.minted
  suspended : ∀ suspended ∈ s'.suspended, suspended ∈ s.suspended
  written : ∃ plain, s'.written = s.written ++ plain ∧ ∀ written ∈ plain, written.plain

-- No request id came twice.
def Named (s : Transport) : Prop := (s.calls.map ToolCall.originalId).Nodup

-- The events in the audit member of a result, as the host reads them.
def carriedEvents (frame : JsonRpcFrame) : Option Json :=
  (Json.lookup (metaOf (frame.result.map Json.obj)) EXTENSION_ID).bind fun member => member.get Fields.EVENTS

-- A frame that goes out for another: an error as it is, a result up to its `_meta`.
structure SameAnswer (answer frame : JsonRpcFrame) : Prop where
  method : frame.method = answer.method
  error : frame.error = answer.error
  result : ∀ name, name ≠ META →
    Json.lookup (frame.result.getD []) name = Json.lookup (answer.result.getD []) name

def eventsJson (events : List ToolEvent) : Json := .arr (events.map fun event => .obj event.members)

namespace Transport

variable {s : Transport} {call : Nat} {found : ToolCall} {token : JsString}

-- `#acceptRetry` where no frame was held.
def reschedule (s : Transport) (call : Nat) : Transport :=
  match s.calls[call]? with
  | none => s
  | some found => if !found.finished && found.buffered.any ToolEvent.isAttempt then s.scheduleRound call else s

def concluding (found : ToolCall) (answer : JsonRpcFrame) : ToolCall :=
  { found with finished := true, answer := some answer, leftover := found.buffered }

def abandoning (found : ToolCall) : ToolCall :=
  { found with buffered := found.buffered.filter fun event => !event.isAttempt, nextAwaiting := .empty }

-- A round goes out, and the timer stands as given.
def sendRound (s : Transport) (call : Nat) (found : ToolCall) (requestId : RequestId) (token : JsString)
    (scheduled : Bool) : Transport :=
  { s with
    calls := s.calls.modify call fun found =>
      { found with
        buffered := [], round := some ⟨token, found.nextAwaiting⟩, nextAwaiting := .empty, currentId := none
        roundScheduled := scheduled }
    rounds := s.rounds.set token call
    minted := s.minted ++ [token]
    written := s.written ++
      [.round call token found.buffered (roundFrame requestId (s.sessionIdOf found) token found.buffered)] }

end Transport

open Transport

inductive Move (config : TransportConfig) : Transport → Transport → Prop
  | aside {s s' : Transport} (h : Aside s s') : Move config s s'
  | opens {s : Transport} (frame : JsonRpcFrame) (id : RequestId) : Move config s (s.takeCall frame id)
  | negotiates {s s' : Transport} {call : Nat} {found : ToolCall} {offered : AuditCapability}
      {result : NegotiationResult} (hcall : s.calls[call]? = some found)
      (hresult : s.negotiate config call found offered = .ok (result, s')) : Move config s s'
  -- An event that is not buffered: the call is at its end, or under §6.5.
  | notes {s : Transport} {call : Nat} {found : ToolCall} (event : ToolEvent) (hcall : s.calls[call]? = some found)
      (hlost : found.modern = true → found.finished = true ∨ found.cancelled = true) :
      Move config s (s.note call event)
  | waits {s : Transport} {call : Nat} {found : ToolCall} {event : ToolEvent} (hcall : s.calls[call]? = some found)
      (hnegotiated : found.negotiated = true) (hattempt : event.isAttempt = true) (hmodern : found.modern = true)
      (hfinished : found.finished = false) (hcancelled : found.cancelled = false) :
      Move config s ((s.note call event).sendAttempt call found event)
  | buffers {s : Transport} {call : Nat} {found : ToolCall} {event : ToolEvent} (hcall : s.calls[call]? = some found)
      (hnegotiated : found.negotiated = true) (hmodern : found.modern = true)
      (hfinished : found.finished = false) (hcancelled : found.cancelled = false) :
      Move config s ((s.note call event).sendOutcome call found event)
  -- A message under §6.5, and the attempt that waits for its answer.
  | tells {s : Transport} {call : Nat} {found : ToolCall} (event : ToolEvent) (frame : JsonRpcFrame)
      (hcall : s.calls[call]? = some found) (hnegotiated : found.negotiated = true) :
      Move config s (s.write (.message call event frame))
  | asks {s : Transport} {call : Nat} {found : ToolCall} (event : ToolEvent) (hcall : s.calls[call]? = some found)
      (hmodern : found.modern = false) :
      Move config s { s with attempts := s.attempts ++ [⟨call, event, none, false⟩] }
  | endsRound {s : Transport} {call : Nat} {found : ToolCall} {requestId : RequestId} {token : JsString}
      (scheduled : Bool) (hcall : s.calls[call]? = some found) (hopen : found.currentId = some requestId)
      (hround : found.round = none) (hbuffered : found.buffered ≠ []) (hfresh : token ∉ s.minted)
      (htracked : Named s → s.tracked.get found.originalId = some call) :
      Move config s (s.sendRound call found requestId token scheduled)
  | unschedules {s : Transport} {call : Nat} {found : ToolCall} (hcall : s.calls[call]? = some found)
      (hidle : found.finished = true ∨ found.cancelled = true ∨ found.currentId = none ∨ found.buffered = []) :
      Move config s (s.alter call fun found => { found with roundScheduled := false })
  | resumes {s : Transport} {call : Nat} {round : OpenRound} {state : JsString} (id : RequestId) (frame : JsonRpcFrame)
      (hopen : s.openRound state = some (call, round)) :
      Move config s ((s.resume call round id frame).reschedule call)
  | finishes {s : Transport} {call : Nat} {found : ToolCall} (answer : JsonRpcFrame)
      (hcall : s.calls[call]? = some found) (hfinished : found.finished = false) :
      Move config s
        { s.alter call fun found => abandoning (concluding found answer) with
          attempts := unanswered s.attempts found.nextAwaiting }
  -- The final frame of a call, with what is still buffered.
  | concludes {s : Transport} {call : Nat} {found : ToolCall} (answer frame : JsonRpcFrame)
      (hcall : s.calls[call]? = some found) (hfinished : found.finished = true)
      (hcarries : found.buffered ≠ [] → carriedEvents frame = some (eventsJson found.buffered))
      (hanswer : found.answer = some answer) (hsame : SameAnswer answer frame) :
      Move config s ((s.alter call fun found => { found with buffered := [] }).write
        (.final call answer found.buffered frame))
  | suspends {s : Transport} {call : Nat} {found : ToolCall} (answer : JsonRpcFrame) (inbound : Bool)
      (hcall : s.calls[call]? = some found) (hfinished : found.finished = true) (hanswer : found.answer = some answer) :
      Move config s { s with suspended := s.suspended ++ [⟨call, answer, inbound⟩] }
  | releases {s : Transport} {call : Nat} {found : ToolCall} (final : Bool) (hcall : s.calls[call]? = some found)
      (htracked : s.tracked.get found.originalId = some call) (hfinished : found.finished = true) :
      Move config s (s.release call final)
  | cancels {s : Transport} (call : Nat) :
      Move config s ((s.alter call fun found => { found with cancelled := true }).release call true)
  | holds {s : Transport} {call : Nat} {found : ToolCall} (held : Option JsonRpcFrame)
      (hcall : s.calls[call]? = some found) (hheld : ∀ answer, held = some answer → found.finished = true ∧ found.answer = some answer) :
      Move config s (s.alter call fun found => { found with held := held })
  | settles {s : Transport} {attempts : List Attempt} (h : Progress s.attempts attempts) :
      Move config s { s with attempts := attempts }
  | dropsAll {s : Transport} (hnone : s.tracked.entries = []) :
      Move config s { s with sessions := s.sessions.dropAll }

-- The moves one step makes.
inductive Moves (config : TransportConfig) : Transport → Transport → Prop
  | stay (s : Transport) : Moves config s s
  | step {s middle s' : Transport} (hmoves : Moves config s middle) (hmove : Move config middle s') : Moves config s s'

namespace Moves

variable {config : TransportConfig} {s middle s' : Transport}

theorem single (h : Move config s s') : Moves config s s' := .step (.stay s) h

theorem trans (h : Moves config s middle) (h' : Moves config middle s') : Moves config s s' := by
  induction h' with
  | stay => exact h
  | step _ hmove ih => exact .step ih hmove

theorem aside (h : Aside s s') : Moves config s s' := .single (.aside h)

-- An invariant of the moves is one of a step.
theorem keeps {I : Transport → Prop} (hmove : ∀ s s', I s → Move config s s' → I s') (h : Moves config s s') (hs : I s) :
    I s' := by
  induction h with
  | stay => exact hs
  | step _ hlast ih => exact hmove _ _ ih hlast

end Moves

end AuditableMcp.Mcp
