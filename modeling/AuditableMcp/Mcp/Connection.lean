import AuditableMcp.Mcp.Transport

-- The runs of a tool seam: what its handlers, its peer, its timers and the sends of the wrapped
-- transport do, in any order.
namespace AuditableMcp.Mcp

-- A token as a round is given it. Its 32 random bytes are taken never to come up twice.
structure Minted (config : TransportConfig) (s : Transport) (token : JsString) : Prop where
  drawn : ∃ random : List UInt8, random.length = ROUND_TOKEN_BYTES ∧ token = mintRoundToken config.instanceId random
  fresh : token ∉ s.minted

inductive TransportAction where
  | receives (frame : JsonRpcFrame)
  | negotiates (call : Nat) (offered : AuditCapability)
  | attempts (call : Nat) (event : ToolEvent)
  | records (call : Nat) (event : ToolEvent)
  | sends (frame : JsonRpcFrame)
  | ends (call : Nat)
  | expires (attempt : Nat)
  | givesUp (attempt : Nat)
  | fails (attempt : Nat)
  | resumes (call : Nat)
  | goesOn
  | forgets (key : RequestId)
  | disconnects

-- `#requireNegotiated` refuses what a call that is not negotiated sends, and nothing changes.
inductive TransportStep (config : TransportConfig) (s : Transport) : TransportAction → Transport → Prop
  -- The inbound frame whose turn it is, up to the `await` of a send.
  | receives {frame : JsonRpcFrame} {token : JsString} (hturn : s.handling = false) (htoken : Minted config s token) :
      TransportStep config s (.receives frame) (s.inbound frame token)
  | negotiates {call : Nat} {found : ToolCall} {offered : AuditCapability} {result : NegotiationResult} {s' : Transport}
      (hcall : s.calls[call]? = some found) (hresult : s.negotiate config call found offered = .ok (result, s')) :
      TransportStep config s (.negotiates call offered) s'
  | attempts {call : Nat} {found : ToolCall} {event : ToolEvent} (hcall : s.calls[call]? = some found)
      (hnegotiated : found.negotiated = true) (hattempt : event.isAttempt = true) :
      TransportStep config s (.attempts call event) ((s.note call event).sendAttempt call found event)
  | records {call : Nat} {found : ToolCall} {event : ToolEvent} (hcall : s.calls[call]? = some found)
      (hnegotiated : found.negotiated = true) :
      TransportStep config s (.records call event) ((s.note call event).sendOutcome call found event)
  -- The tool's session writes a frame.
  | sends {frame : JsonRpcFrame} {token : JsString} (htoken : Minted config s token) :
      TransportStep config s (.sends frame) (s.outbound config frame token)
  -- The timer of a scheduled round.
  | ends {call : Nat} {found : ToolCall} {token : JsString} (hcall : s.calls[call]? = some found)
      (hscheduled : found.roundScheduled = true) (htoken : Minted config s token) :
      TransportStep config s (.ends call) (s.roundTimer call found token)
  -- The timeout of an attempt comes before its answer, and then its wait ends.
  | expires {attempt : Nat} {found : Attempt} (hattempt : s.attempts[attempt]? = some found)
      (hopen : found.settlement = none) : TransportStep config s (.expires attempt) (s.abandon attempt)
  | givesUp {attempt : Nat} {found : Attempt} (hattempt : s.attempts[attempt]? = some found)
      (habandoned : found.abandoned = true) : TransportStep config s (.givesUp attempt) (s.giveUp attempt)
  -- The message of an attempt under §6.5 could not be sent.
  | fails {attempt : Nat} {found : Attempt} {name : JsString} (hattempt : s.attempts[attempt]? = some found)
      (hpending : s.pending.get name = some attempt) :
      TransportStep config s (.fails attempt) ((s.abandon attempt).withdraw attempt)
  -- The send of an outcomes-only round settles, and its conclusion goes on.
  | resumes {before after : List Suspended} {suspended : Suspended}
      (hsuspended : s.suspended = before ++ suspended :: after) :
      TransportStep config s (.resumes suspended.call)
        ({ s with
            suspended := before ++ after
            handling := s.handling && !suspended.inbound }.keepConcluded suspended.call suspended.answer)
  -- Another send that an inbound frame's handling waits for settles.
  | goesOn (hhandling : s.handling = true) (hnone : ∀ suspended ∈ s.suspended, suspended.inbound = false) :
      TransportStep config s .goesOn { s with handling := false }
  | forgets {key : RequestId} (hkey : key ∈ s.cancelled) :
      TransportStep config s (.forgets key) (s.forgetCancelled key)
  | disconnects : TransportStep config s .disconnects s.connectionLost

-- The states a new seam reaches, with what was done on the way.
inductive TransportRun (config : TransportConfig) : List TransportAction → Transport → Prop
  | start : TransportRun config [] .empty
  | step {actions : List TransportAction} {action : TransportAction} {s s' : Transport}
      (hrun : TransportRun config actions s) (hstep : TransportStep config s action s') :
      TransportRun config (actions ++ [action]) s'

end AuditableMcp.Mcp
