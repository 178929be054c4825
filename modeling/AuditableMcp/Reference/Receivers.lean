import AuditableMcp.Mcp.Receiver
import AuditableMcp.Reference.Connections

-- Runs of a host's seam that can be computed, and one to try the contracts on.
namespace AuditableMcp.Reference

open Mcp Mcp.HostSeam

def hostPlay (capability : AuditCapability) (actions : List ReceiverAction) : Option Receiver :=
  actions.foldl (fun s action => s.bind fun s => s.perform capability action) (some .empty)

theorem hostPlay_run {capability : AuditCapability} {actions : List ReceiverAction} {s : Receiver}
    (h : hostPlay capability actions = some s) : ReceiverRun capability actions s := by
  induction actions using List.reverseRecOn generalizing s with
  | nil => exact Option.some_inj.mp h ▸ .start
  | append_singleton actions action ih =>
      unfold hostPlay at h
      rw [List.foldl_append] at h
      obtain ⟨middle, hmiddle, hperform⟩ := Option.bind_eq_some_iff.mp h
      exact .step (ih hmiddle) hperform

def HOST_REQUIREMENT : AuditCapability := ⟨SPEC_VERSION, .L1, .none⟩

def hostFrame (id : RequestId) (result : Members) : JsonRpcFrame :=
  { id := some id, method := none, params := none, error := none, result := some result }

def queryCall : JsonRpcFrame :=
  { id := some (.num (.ofNat 1)), method := some TOOLS_CALL_METHOD, params := some [("name", .str "query")], result := none
    error := none }

def attemptRound : Members :=
  [(RESULT_TYPE, .str INPUT_REQUIRED), (REQUEST_STATE, .str "amcp.round"),
    (META, .obj [(EXTENSION_ID, .obj [(Fields.SESSION_ID, .str SESSION_A),
      (Fields.EVENTS, .arr [toolEvent SESSION_A EVENT_1 Outcome.ATTEMPTED []])])])]

-- A call whose attempt is decided, retried and concluded.
def auditedRound : List ReceiverAction :=
  [.sends queryCall SESSION_A false, .arrives (hostFrame (.num (.ofNat 1)) attemptRound) none, .starts SESSION_A,
    .decides 0 (.ok acceptedResponse), .settles SESSION_A, .settles SESSION_A,
    .arrives (hostFrame (.str "amcp-1") [("content", .arr [])]) none, .starts SESSION_A, .settles SESSION_A]

def auditedReceiver : Receiver := (hostPlay HOST_REQUIREMENT auditedRound).get (by decide +kernel)

theorem auditedReceiver_plays : hostPlay HOST_REQUIREMENT auditedRound = some auditedReceiver := (Option.some_get _).symm

end AuditableMcp.Reference
