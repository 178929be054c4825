import AuditableMcp.Library.Heap
import AuditableMcp.Mcp.Receiver

-- What a step of the host's seam comes to, said once: the moves of which each is a sequence, and
-- how the seam's tables and queues stand in every state.
namespace AuditableMcp.Mcp.HostSeam

-- The last work of a session: nothing is queued behind it.
def Doing.closes : Doing → Bool
  | .sealing _ _ .close => true
  | .closing _ _ => true
  | _ => false

def Job.closes : Job → Bool
  | .seals _ _ _ .close => true
  | _ => false

def Ending.isFinish : Ending → Bool
  | .finish _ => true
  | _ => false

-- A frame without this extension's member.
def Bare (frame : JsonRpcFrame) : Prop := Json.lookup (metaOf (frame.result.map Json.obj)) EXTENSION_ID = none

def Shown.bare : Shown → Prop
  | .passed _ => True
  | .answer _ frame => Bare frame

def Sent.plain : Sent → Prop
  | .passed _ => True
  | .refusal _ => True
  | _ => False

namespace Receiver

variable (s : Receiver)

-- A call of the session.
def Owns (sessionId : JsString) (call : Nat) : Prop :=
  ∃ found, s.heap[call]? = some found ∧ found.sessionId = sessionId

-- An attempt under the id was handed to the endpoint, in the session.
def Handed (decision : Nat) (sessionId id : JsString) : Prop :=
  ∃ event answer, s.decisions[decision]? = some ⟨event, sessionId, answer⟩ ∧ answerableAttempt event = some id

-- An answer is the endpoint's own, in the session, or it lets nothing run.
def Given (sessionId : JsString) (entry : JsString × Json) : Prop :=
  entry.2 = unavailableResponse ∨
    ∃ (decision : Nat) (event : Json), s.decisions[decision]? = some ⟨event, sessionId, some entry.2⟩ ∧
      answerableAttempt event = some entry.1

def Replied (sessionId : JsString) (event response : Json) : Prop :=
  response = unavailableResponse ∨ ∃ decision : Nat, s.decisions[decision]? = some ⟨event, sessionId, some response⟩

end Receiver

-- A job stands in its call's queue, and a response that is followed asks for a retry.
def Job.Fits (s : Receiver) (sessionId : JsString) : Job → Prop
  | .attempt _ _ => True
  | .outcome _ => True
  | .seals call _ _ ending => s.Owns sessionId call ∧ ending.isFinish = false
  | .follow call frame => s.Owns sessionId call ∧ concludes frame = false

def Doing.Fits (s : Receiver) (sessionId : JsString) : Doing → Prop
  | .deciding _ event decision => ∃ answer, s.decisions[decision]? = some ⟨event, sessionId, answer⟩
  | .sealing call _ after => s.Owns sessionId call ∧ after.isFinish = false
  | .processing work => s.Owns sessionId work.call ∧ (∀ entry ∈ work.responses, s.Given sessionId entry) ∧
      ∀ id decision, work.awaiting = some (id, decision) → s.Handed decision sessionId id
  | .retrying call => s.Owns sessionId call
  | .closing call forward => (∃ found, s.heap[call]? = some found ∧ found.sessionId = sessionId ∧ found.closed = true) ∧
      ∀ frame, forward = some frame → Bare frame
  | .ending => True

-- What stays: a call's session, that it is closed, and what the endpoint decided.
structure Receiver.Later (s s' : Receiver) : Prop where
  calls : ∀ (call : Nat) (found : HostCall), s.heap[call]? = some found → ∃ found', s'.heap[call]? = some found' ∧
    found'.sessionId = found.sessionId ∧ (found.closed = true → found'.closed = true)
  decisions : ∀ (decision : Nat) (event : Json) (sessionId : JsString) (answer : Option Json),
    s.decisions[decision]? = some ⟨event, sessionId, answer⟩ → ∃ answer',
      s'.decisions[decision]? = some ⟨event, sessionId, answer'⟩ ∧ (answer.isSome = true → answer' = answer)

-- Where nothing but what is sent and shown changes.
structure HostAside (s s' : Receiver) : Prop where
  heap : s'.heap = s.heap
  calls : s'.calls = s.calls
  bySession : s'.bySession = s.bySession
  unclosed : s'.unclosed = s.unclosed
  held : s'.held = s.held
  chains : s'.chains = s.chains
  decisions : s'.decisions = s.decisions
  asked : s'.asked = s.asked
  outside : ∀ call ∈ s'.outside, call ∈ s.outside
  sent : ∃ plain, s'.sent = s.sent ++ plain ∧ ∀ sent ∈ plain, sent.plain
  delivered : ∃ shown, s'.delivered = s.delivered ++ shown ∧ ∀ one ∈ shown, one.bare

-- Where the connection stays and no retry fails ahead of queued work, the run is calm.
inductive HostMove (calm : Prop) : Receiver → Receiver → Prop
  | aside {s s' : Receiver} (h : HostAside s s') : HostMove calm s s'
  | replies {s : Receiver} {sessionId : JsString} {event response : Json} (id : RequestId)
      (hreplied : s.Replied sessionId event response) :
      HostMove calm s (s.write (.answer sessionId event response (responseFrame id response)))
  | opens {s : Receiver} {sessionId : JsString} (frame : JsonRpcFrame) (id : RequestId) (params : Members) (signal : Bool)
      (hfresh : s.fresh sessionId = true) : HostMove calm s (s.openCall frame id params sessionId signal)
  | resumes {s : Receiver} {call : Nat} {found : HostCall} {state : JsString} {responses : Members} (frame : JsonRpcFrame)
      (id : RequestId) (params : Members) (signal : Bool) (hcall : s.heap[call]? = some found)
      (hheld : found.held = some (state, responses)) :
      HostMove calm s (s.resume call found responses frame id params signal)
  | ends {s : Receiver} {call : Nat} {found : HostCall} (inProgress : Bool) (events : List Json)
      (hcall : s.heap[call]? = some found) (hlive : found.ended = false) :
      HostMove calm s ((s.detach call).inSession found.sessionId (.seals call inProgress events .close))
  | queues {s : Receiver} {sessionId : JsString} {job : Job} (hopen : job.closes = false) (hfits : job.Fits s sessionId)
      (hlive : sessionId = NO_CALL_IN_FLIGHT ∨
        ∃ (call : Nat) (found : HostCall), s.heap[call]? = some found ∧ found.ended = false ∧ found.sessionId = sessionId) :
      HostMove calm s (s.inSession sessionId job)
  | begins {s : Receiver} {sessionId : JsString} {job : Job} {jobs : List Job} {doing : Doing}
      (hchain : s.chains sessionId = ⟨none, job :: jobs⟩) (hcloses : doing.closes = job.closes)
      (hfits : doing.Fits s sessionId) (hround : ∀ work, doing ≠ .processing work) :
      HostMove calm s (s.begins sessionId doing)
  | goes {s : Receiver} {sessionId : JsString} {before doing : Doing} (hdoing : (s.chains sessionId).doing = some before)
      (hcloses : doing.closes = before.closes) (hfits : doing.Fits s sessionId)
      (hopen : ∀ call forward, before ≠ .closing call forward)
      (hround : ∀ work, doing = .processing work →
        ∃ first, before = .processing first ∧ work.call = first.call ∧ work.decide = first.decide) :
      HostMove calm s (s.goesOn sessionId (some doing))
  | stops {s : Receiver} {sessionId : JsString} {doing : Doing} (hdoing : (s.chains sessionId).doing = some doing)
      (hclosed : doing.closes = true →
        ∃ (call : Nat) (found : HostCall), s.heap[call]? = some found ∧ found.sessionId = sessionId ∧ found.closed = true) :
      HostMove calm s (s.goesOn sessionId none)
  | seals {s : Receiver} {sessionId : JsString} {doing : Doing} (event : Json)
      (hdoing : (s.chains sessionId).doing = some doing) (hopen : ∀ call forward, doing ≠ .closing call forward) :
      HostMove calm s (s.ask (.handleOutcome event sessionId))
  | decides {s : Receiver} {sessionId : JsString} {doing : Doing} (event : Json)
      (hdoing : (s.chains sessionId).doing = some doing) (hopen : ∀ call forward, doing ≠ .closing call forward) :
      HostMove calm s (s.takeDecision event sessionId)
  | closes {s : Receiver} {call : Nat} {found : HostCall} {doing : Doing}
      (hdoing : (s.chains found.sessionId).doing = some doing) (hcloses : doing.closes = true)
      (hcall : s.heap[call]? = some found) (hopen : found.closed = false) :
      HostMove calm s (((s.alter call fun found => { found with closed := true }).ask
        (.closeSession found.sessionId)).goesOn found.sessionId (some (.closing call none)))
  | closesAhead {s : Receiver} {call : Nat} {found : HostCall} {doing : Doing} (forward : JsonRpcFrame)
      (hdoing : (s.chains found.sessionId).doing = some doing) (hcloses : doing.closes = false)
      (hcall : s.heap[call]? = some found) (hlive : found.ended = false) (hopen : found.closed = false)
      (hbare : Bare forward) (hbehind : calm → (s.chains found.sessionId).jobs = []) :
      HostMove calm s ((((s.detach call).alter call fun found => { found with closed := true }).ask
        (.closeSession found.sessionId)).goesOn found.sessionId (some (.closing call (some forward))))
  | detaches {s : Receiver} {call : Nat} {found : HostCall} (hcall : s.heap[call]? = some found)
      (hlive : found.ended = false) (hclosed : found.closed = true) : HostMove calm s (s.detach call)
  | rounds {s : Receiver} {call : Nat} {found : HostCall} (frame : JsonRpcFrame) (decide : Bool)
      (hcall : s.heap[call]? = some found) (hdoing : (s.chains found.sessionId).doing = some .ending)
      (hdecide : decide = true → found.rounds + 1 ≤ MAX_ROUNDS_PER_CALL) :
      HostMove calm s (s.beginRound found.sessionId call frame decide)
  | holds {s : Receiver} {call : Nat} {found : HostCall} {state : JsString} {responses : Members}
      (hcall : s.heap[call]? = some found) (hlive : found.ended = false)
      (hfree : ∀ other, s.held.get state = some other → other = call)
      (hgiven : ∀ entry ∈ responses, s.Given found.sessionId entry) :
      HostMove calm s (s.holdRound call found state responses)
  | retries {s : Receiver} {call : Nat} {found : HostCall} {work : RoundWork} (state : JsString) {responses : Members}
      (hcall : s.heap[call]? = some found) (hlive : found.ended = false)
      (hdoing : (s.chains found.sessionId).doing = some (.processing work)) (hwork : work.call = call)
      (hdecide : work.decide = true) (hgiven : ∀ entry ∈ responses, s.Given found.sessionId entry) :
      HostMove calm s (s.retry found.sessionId call found state responses)
  | forgets {s : Receiver} {call : Nat} {found : HostCall} (hcall : s.heap[call]? = some found)
      (hclosed : found.closed = true) : HostMove calm s (s.forget call)
  | closesOutside {s : Receiver} (call : Nat) (hstorm : ¬calm) : HostMove calm s (s.closeOutside call)
  | answers {s : Receiver} {decision : Nat} {event : Json} {sessionId : JsString} (answer : Json)
      (hdecision : s.decisions[decision]? = some ⟨event, sessionId, none⟩) :
      HostMove calm s { s with decisions := s.decisions.set decision ⟨event, sessionId, some answer⟩ }
  | loses {s : Receiver} (hstorm : ¬calm) : HostMove calm s { s with calls := .empty }

-- The connection stays, and no retry fails ahead of work that is queued.
def Calm (s : Receiver) : ReceiverAction → Prop
  | .fails sessionId => (s.chains sessionId).jobs = []
  | .disconnects => False
  | .closesRegardless => False
  | _ => True

inductive HostMoves (calm : Prop) : Receiver → Receiver → Prop
  | stay (s : Receiver) : HostMoves calm s s
  | step {s middle s' : Receiver} (hmoves : HostMoves calm s middle) (hmove : HostMove calm middle s') : HostMoves calm s s'

namespace HostMoves

variable {calm : Prop} {s middle s' : Receiver}

theorem single (h : HostMove calm s s') : HostMoves calm s s' := .step (.stay s) h

theorem trans (h : HostMoves calm s middle) (h' : HostMoves calm middle s') : HostMoves calm s s' := by
  induction h' with
  | stay => exact h
  | step _ hmove ih => exact .step ih hmove

theorem keeps {I : Receiver → Prop} (hmove : ∀ s s', I s → HostMove calm s s' → I s') (h : HostMoves calm s s')
    (hs : I s) : I s' := by
  induction h with
  | stay => exact hs
  | step _ hlast ih => exact hmove _ _ ih hlast

end HostMoves

end AuditableMcp.Mcp.HostSeam
