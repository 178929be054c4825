import AuditableMcp.Reference.Events
import AuditableMcp.Tool.Acquiring

-- Sessions and worlds to run the tool's side in.
namespace AuditableMcp.Reference

open Program

-- A Level-1 session that checks countersignatures where there are any.
def checkingSession : AmcpSession where
  sessionId := SESSION_A
  signer := none
  pollutedStop := false
  countersignatureVerifier := true
  requireCountersign := false
  named := by decide +kernel
  verifies := by simp
  stops := by simp

def querySpec : AuditSpec where
  actionType := "db.query"
  targetResource := .obj [(Fields.KIND, .str "table"), (Fields.REF, .str "orders")]
  mutates := false
  egress := false
  disclose := none
  commit := none
  commitSalted := none

-- A host that gives one response to every attempt, and a handler that goes one way.
def worldOf (response : Json) (run : HandlerRun) : (c : SessionCall) → c.Answer
  | .newId => .ok EVENT_1
  | .now => .ok MORNING
  | .randomValues count => List.replicate count 0
  | .enter => 0
  | .advance _ => ()
  | .leave => ()
  | .sign event _ => .ok event
  | .sendAttempt _ => .ok (some response)
  | .sendOutcome _ => .ok ()
  | .verify _ _ _ => .ok .valid
  | .handler _ => run

theorem worldOf_keeps {α : Type} (response : Json) (run : HandlerRun) (program : Tool α) :
    SignerKeeps (program.runWith (worldOf response run)).1 := by
  rintro ⟨call, answer⟩ hmem
  have hanswer := answer_of_runWith (worldOf response run) program _ hmem
  cases call with
  | sign event signerSeq =>
      obtain rfl : answer = some (.ok event) := hanswer
      exact fun name _ => rfl
  | _ => trivial

-- A Level-2 session that signs under a key.
def signingSession (keyId : JsString) : AmcpSession where
  sessionId := SESSION_A
  signer := some keyId
  pollutedStop := true
  countersignatureVerifier := false
  requireCountersign := false
  named := by decide +kernel
  verifies := by simp
  stops := by simp

-- A signer that stamps and signs nothing.
def stamped (keyId : JsString) (event : Json) (signerSeq : Nat) : Json :=
  match event with
  | .obj members => .obj (signedUnder keyId signerSeq "c2lnbmF0dXJl" ++ members)
  | _ => .obj (signedUnder keyId signerSeq "c2lnbmF0dXJl")

-- Its world, where every operation has the id given.
def signingWorld (keyId id : JsString) (response : Json) : (c : SessionCall) → c.Answer
  | .newId => .ok id
  | .sign event signerSeq => .ok (stamped keyId event signerSeq)
  | c => worldOf response ⟨[], .ok .null⟩ c

end AuditableMcp.Reference
