import AuditableMcp.Mcp.Connection

-- Runs of a tool seam that can be computed, and one to try the contracts on.
namespace AuditableMcp.Reference

open Mcp

-- What an action comes to, where it can be taken, with the bytes a round's token draws.
def take (config : TransportConfig) (s : Transport) (random : List UInt8) (action : TransportAction) : Option Transport :=
  let token := mintRoundToken config.instanceId random
  if random.length ≠ ROUND_TOKEN_BYTES ∨ token ∈ s.minted then none
  else
    match action with
    | .receives frame => if s.handling then none else some (s.inbound frame token)
    | .negotiates call offered =>
        (s.calls[call]?).bind fun found => (s.negotiate config call found offered).toOption.map Prod.snd
    | .attempts call event =>
        (s.calls[call]?).bind fun found =>
          if found.negotiated ∧ event.isAttempt then some ((s.note call event).sendAttempt call found event) else none
    | .records call event =>
        (s.calls[call]?).bind fun found =>
          if found.negotiated then some ((s.note call event).sendOutcome call found event) else none
    | .sends frame => some (s.outbound config frame token)
    | .ends call =>
        (s.calls[call]?).bind fun found =>
          if found.roundScheduled then some (s.roundTimer call found token) else none
    | .disconnects => some s.connectionLost
    | _ => none

theorem take_step {config : TransportConfig} {s s' : Transport} {random : List UInt8} {action : TransportAction}
    (h : take config s random action = some s') : TransportStep config s action s' := by
  unfold take at h
  by_cases hminted : random.length ≠ ROUND_TOKEN_BYTES ∨ mintRoundToken config.instanceId random ∈ s.minted
  · simp [hminted] at h
  · simp only [hminted, if_false] at h
    simp only [not_or, not_not] at hminted
    have htoken : Minted config s (mintRoundToken config.instanceId random) := ⟨⟨random, hminted.1, rfl⟩, hminted.2⟩
    cases action with
    | receives frame =>
        by_cases hturn : s.handling = true
        · simp [hturn] at h
        · simp only [hturn, Bool.false_eq_true, if_false, Option.some_inj] at h
          exact h ▸ .receives (by simpa using hturn) htoken
    | negotiates call offered =>
        obtain ⟨found, hcall, h⟩ := Option.bind_eq_some_iff.mp h
        obtain ⟨⟨result, after⟩, hresult, rfl⟩ := Option.map_eq_some_iff.mp h
        cases hn : s.negotiate config call found offered with
        | error e =>
            rw [hn] at hresult
            cases hresult
        | ok both =>
            rw [hn] at hresult
            exact .negotiates hcall (hn.trans (congrArg Except.ok (Option.some_inj.mp hresult)))
    | attempts call event =>
        obtain ⟨found, hcall, h⟩ := Option.bind_eq_some_iff.mp h
        obtain ⟨⟨hnegotiated, hattempt⟩, h⟩ := Option.ite_none_right_eq_some.mp h
        exact Option.some_inj.mp h ▸ .attempts hcall hnegotiated hattempt
    | records call event =>
        obtain ⟨found, hcall, h⟩ := Option.bind_eq_some_iff.mp h
        obtain ⟨hnegotiated, h⟩ := Option.ite_none_right_eq_some.mp h
        exact Option.some_inj.mp h ▸ .records hcall hnegotiated
    | sends frame => exact Option.some_inj.mp h ▸ .sends htoken
    | ends call =>
        obtain ⟨found, hcall, h⟩ := Option.bind_eq_some_iff.mp h
        obtain ⟨hscheduled, h⟩ := Option.ite_none_right_eq_some.mp h
        exact Option.some_inj.mp h ▸ .ends hcall hscheduled htoken
    | disconnects => exact Option.some_inj.mp h ▸ .disconnects
    | expires attempt => cases h
    | givesUp attempt => cases h
    | fails attempt => cases h
    | resumes call => cases h
    | goesOn => cases h
    | forgets key => cases h

-- The state after some actions, the latest last.
def play (config : TransportConfig) (actions : List (List UInt8 × TransportAction)) : Option Transport :=
  actions.foldl (fun reached action => reached.bind fun s => take config s action.1 action.2) (some .empty)

theorem play_run {config : TransportConfig} {actions : List (List UInt8 × TransportAction)} {s : Transport}
    (h : play config actions = some s) : TransportRun config (actions.map Prod.snd) s := by
  induction actions using List.reverseRecOn generalizing s with
  | nil => exact Option.some_inj.mp h ▸ .start
  | append_singleton before last ih =>
      unfold play at h
      rw [List.foldl_append] at h
      obtain ⟨middle, hmiddle, htake⟩ := Option.bind_eq_some_iff.mp h
      rw [List.map_append]
      exact .step (ih hmiddle) (take_step htake)

-- A test of the state that some actions come to.
theorem of_play {config : TransportConfig} {actions : List (List UInt8 × TransportAction)} {test : Transport → Bool}
    (h : (play config actions).any test = true) :
    ∃ s, play config actions = some s ∧ TransportRun config (actions.map Prod.snd) s ∧ test s = true := by
  obtain ⟨s, hplay, htest⟩ := (Option.any_eq_true ..).mp h
  exact ⟨s, hplay, play_run hplay, htest⟩

-- And one of a step that may follow.
theorem of_take {config : TransportConfig} {actions : List (List UInt8 × TransportAction)} {random : List UInt8}
    {action : TransportAction} {test : Transport → Transport → Bool}
    (h : (play config actions).any (fun s => (take config s random action).any (test s)) = true) :
    ∃ s s', play config actions = some s ∧ TransportRun config (actions.map Prod.snd) s ∧
      TransportStep config s action s' ∧ test s s' = true := by
  obtain ⟨s, hplay, hrun, htake⟩ := of_play h
  obtain ⟨s', hs', htest⟩ := (Option.any_eq_true ..).mp htake
  exact ⟨s, s', hplay, hrun, take_step hs', htest⟩

-- A test of one of its calls.
def callIs (call : Nat) (test : ToolCall → Bool) (s : Transport) : Bool := (s.calls[call]?).any test

theorem of_callIs {call : Nat} {test : ToolCall → Bool} {s : Transport} (h : callIs call test s = true) :
    ∃ found, s.calls[call]? = some found ∧ test found = true := (Option.any_eq_true ..).mp h

def capability : AuditCapability := ⟨SPEC_VERSION, .L1, .none⟩

def seam : TransportConfig := ⟨capability, "tool-1"⟩

-- A `tools/call` of the modern protocol, in an audit session.
def toolsCall (id : RequestId) (more : Members) : JsonRpcFrame where
  id := some id
  method := some TOOLS_CALL_METHOD
  params := some (("name", .str "query") :: (META, .obj
    [(PROTOCOL_VERSION_META_KEY, .str MODERN_PROTOCOL_VERSION),
     (CLIENT_CAPABILITIES_META_KEY, .obj [(EXTENSIONS_MEMBER, .obj [(EXTENSION_ID, capabilityJson capability)])]),
     (EXTENSION_ID, .obj (((Fields.SESSION_ID, .str SESSION_A)) :: more))]) :: [])
  result := none
  error := none

-- Its retry after a round, with an accept of an attempt.
def retryOf (id : RequestId) (token attempt : JsString) : JsonRpcFrame :=
  let first := toolsCall id [(Fields.RESPONSES, .obj [(attempt, acceptedResponse)])]
  { first with params := first.params.map fun members => (REQUEST_STATE, .str token) :: members }

def answered (id : RequestId) : JsonRpcFrame :=
  { id := some id, method := none, params := none, result := some [("content", .arr [])], error := none }

def queried (id outcome : JsString) : ToolEvent where
  members := membersOf (some (toolEvent SESSION_A id outcome []))
  id := id
  named := by rfl

def draw (byte : UInt8) : List UInt8 := List.replicate ROUND_TOKEN_BYTES byte

-- One attempt, which the host accepts in a round, its outcome, and the call's result.
def auditedCall : List (List UInt8 × TransportAction) :=
  [(draw 0, .receives (toolsCall (.num (.ofNat 1)) [])),
   (draw 0, .negotiates 0 capability),
   (draw 0, .attempts 0 (queried EVENT_1 Outcome.ATTEMPTED)),
   (draw 0, .ends 0),
   (draw 1, .receives (retryOf (.num (.ofNat 2)) (mintRoundToken "tool-1" (draw 0)) EVENT_1)),
   (draw 1, .records 0 (queried EVENT_1 Outcome.SUCCESS)),
   (draw 1, .sends (answered (.num (.ofNat 1))))]

-- Two requests in one audit session.
def twoCalls : List (List UInt8 × TransportAction) :=
  [(draw 0, .receives (toolsCall (.num (.ofNat 1)) [])), (draw 0, .receives (toolsCall (.num (.ofNat 2)) []))]

end AuditableMcp.Reference
