import AuditableMcp.Host.Calls
import AuditableMcp.Reference.Primitives

-- Events and hosts to try the contracts on.
namespace AuditableMcp.Reference

def SESSION_A : JsString := "3f0c1a52-9a3e-4d1b-8f57-0a2b6c4d9e01"
def SESSION_B : JsString := "3f0c1a52-9a3e-4d1b-8f57-0a2b6c4d9e02"
def EVENT_1 : JsString := "5b1d7c36-0f5a-4c2e-9a41-7d3e8f6b2c01"
def EVENT_2 : JsString := "5b1d7c36-0f5a-4c2e-9a41-7d3e8f6b2c02"
def MORNING : JsString := "2026-07-28T09:00:00.000Z"
def NOON : JsString := "2026-07-28T12:00:00.000Z"

-- One database query, under the version, scope and further members given.
def eventOf (version : JsString) (scope : JsString × Json) (id outcome : JsString) (more : List (JsString × Json)) :
    Json :=
  .obj ([(Fields.SPEC_VERSION, .str version), scope, (Fields.TS, .str MORNING), (Fields.ID, .str id),
    (Fields.ACTION_TYPE, .str "db.query"), (Fields.MUTATES, .bool false), (Fields.EGRESS, .bool false),
    (Fields.TARGET_RESOURCE, .obj [(Fields.KIND, .str "table"), (Fields.REF, .str "orders")]),
    (Fields.OUTCOME, .str outcome)] ++ more)

def toolEvent (sessionId id outcome : JsString) (more : List (JsString × Json)) : Json :=
  eventOf SPEC_VERSION (Fields.SESSION_ID, .str sessionId) id outcome more

-- What Level 2 adds to an event.
def signedUnder (keyId : JsString) (signerSeq : Nat) (signature : JsString) : List (JsString × Json) :=
  [(Fields.KEY_ID, .str keyId), (Fields.SIGNER_SEQ, .num (.ofNat signerSeq)), (Fields.SIGNATURE, .str signature)]

-- The records a ledger keeps of some events, all sealed at noon.
def sealedRecords (events : List Json) : List SealedRecord :=
  match Ledger.new.appendAll primitives (events.map fun event => (event, some (.str NOON))) with
  | .ok ledger => ledger.records
  | .error _ => []

theorem sealedRecords_events {events : List Json} (h : (sealedRecords events).length = events.length) :
    (sealedRecords events).map (fun record => (record.event, record.host_ts)) =
      events.map fun event => (event, some (.str NOON)) := by
  unfold sealedRecords at h ⊢
  cases hledger : Ledger.new.appendAll primitives (events.map fun event => (event, some (.str NOON))) with
  | ok ledger => exact (appendAll_isChain _ hledger).2.2.2
  | error e =>
      rw [hledger] at h
      rw [List.length_eq_zero_iff.mp h.symm]
      rfl

-- A host with a repository, at a level and without countersignatures.
def tenant (level : Level) : HostConfig where
  partition := "tenant-a"
  logId := "tenant-a"
  capability := ⟨SPEC_VERSION, level, .none⟩
  verifier := true
  countersigner := none
  repository := true
  l2Verifies := fun _ => rfl
  countersigns := by simp

-- Signatures verify, and the append goes as given.
def answering (loadTail : LoadTail) (append : Append) : Answers := ⟨loadTail, .ok none, NOON, .error .typeError, append⟩

-- A host's accept of the first attempt of its partition.
def acceptedResponse : Json := objectOf
  [(Fields.STATUS, some (.str Status.ACCEPT)), (Fields.SEQ, some (.num (.ofNat 0))),
   (Fields.RECORD_HASH, some (.str GENESIS_HASH)), (Fields.HOST_TS, some (.str NOON)),
   (Fields.PREVIOUS_HASH, some (.str GENESIS_HASH))]

def textOf (event : Json) (name : JsString) : Option JsString :=
  match event.get name with
  | some (.str text) => some text
  | _ => none

theorem textOf_eq_some {event : Json} {name text : JsString} :
    textOf event name = some text ↔ event.get name = some (.str text) := by
  unfold textOf
  split
  · simp_all
  · rename_i h
    simp only [reduceCtorEq, false_iff]
    exact fun he => h text he

end AuditableMcp.Reference
