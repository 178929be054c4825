import AuditableMcp.Host.State
import AuditableMcp.L2.Base64
import AuditableMcp.Mcp.Rounds

-- JSON-RPC messages as they cross a transport, and what the binding declares, negotiates
-- and names in them (mcp/seam.ts, mcp/affinity.ts, mcp/declaration.ts, capability.ts).
namespace AuditableMcp.Mcp

def ATTEMPT_METHOD : JsString := "audit/attempt"
def OUTCOME_METHOD : JsString := "audit/outcome"
def TOOLS_CALL_METHOD : JsString := "tools/call"
def CANCELLED_METHOD : JsString := "notifications/cancelled"
def INITIALIZE_METHOD : JsString := "initialize"
def DISCOVER_METHOD : JsString := "server/discover"

def PROTOCOL_VERSION_META_KEY : JsString := "io.modelcontextprotocol/protocolVersion"
def CLIENT_CAPABILITIES_META_KEY : JsString := "io.modelcontextprotocol/clientCapabilities"
def MODERN_PROTOCOL_VERSION : JsString := "2026-07-28"

def RESULT_TYPE : JsString := "resultType"
def INPUT_REQUIRED : JsString := "input_required"
def TASK : JsString := "task"
def REQUEST_ID : JsString := "requestId"

def ID_PREFIX : JsString := "amcp-"

def MAX_IDLE_SESSIONS : Nat := 1024

def NO_OPEN_ROUND_MESSAGE : JsString := "this requestState names no open round (§6.4)"

def INVALID_PARAMS : Json := .num (.fin (-32602))

def startsWith (text start : JsString) : Bool := start.units.isPrefixOf text.units

-- A JSON-RPC id. `idKey` keeps apart what this does, so an id is its own key.
inductive RequestId where
  | str (value : JsString)
  | num (value : JsNum)
deriving DecidableEq

def RequestId.toJson : RequestId → Json
  | .str value => .str value
  | .num value => .num value

-- The id a value keys, where it keys one a frame can bear.
def RequestId.ofJson : Option Json → Option RequestId
  | some (.str value) => some (.str value)
  | some (.num value) => some (.num value)
  | _ => none

structure JsonRpcFrame where
  id : Option RequestId
  method : Option JsString
  params : Option Members
  result : Option Members
  error : Option Json

namespace JsonRpcFrame

def isRequest (frame : JsonRpcFrame) : Bool := frame.method.isSome && frame.id.isSome

def isNotification (frame : JsonRpcFrame) : Bool := frame.method.isSome && frame.id.isNone

def isResponse (frame : JsonRpcFrame) : Bool := frame.method.isNone && frame.id.isSome

def param (frame : JsonRpcFrame) (name : JsString) : Option Json := Json.lookup (frame.params.getD []) name

-- `metaOf(frame.params)[name]`
def metaParam (frame : JsonRpcFrame) (name : JsString) : Option Json :=
  Json.lookup (metaOf (frame.params.map Json.obj)) name

-- `frame.result?.[RESULT_TYPE] === INPUT_REQUIRED`
def continues (frame : JsonRpcFrame) : Bool :=
  Json.isText (frame.result.bind fun members => Json.lookup members RESULT_TYPE) INPUT_REQUIRED

end JsonRpcFrame

-- Whether `String(value)` is the modern version's text. An array of one converts as its item does.
def namesModern : Json → Bool
  | .str value => value = MODERN_PROTOCOL_VERSION
  | .arr [item] => namesModern item
  | _ => false

def isModern (frame : JsonRpcFrame) : Bool := (frame.metaParam PROTOCOL_VERSION_META_KEY).any namesModern

def isTaskAugmented (frame : JsonRpcFrame) : Bool :=
  match frame.param TASK with
  | some (.obj _) => true
  | _ => false

section Affinity

def ROUND_TOKEN_PREFIX : JsString := "amcp."

def ROUND_TOKEN_BYTES : Nat := 32

-- `mintRoundToken`, given the bytes it draws.
def mintRoundToken (instanceId : JsString) (random : List UInt8) : JsString :=
  ROUND_TOKEN_PREFIX ++ instanceId ++ "." ++ bytesToBase64url random

-- The state a retry carries, where it is one under the reserved prefix.
def roundToken (frame : JsonRpcFrame) : Option JsString :=
  match frame.param REQUEST_STATE with
  | some (.str state) => if startsWith state ROUND_TOKEN_PREFIX then some state else none
  | _ => none

theorem mintRoundToken_startsWith (instanceId : JsString) (random : List UInt8) :
    startsWith (mintRoundToken instanceId random) ROUND_TOKEN_PREFIX = true := by
  have happend (a b : JsString) : (a ++ b).units = a.units ++ b.units := rfl
  simp only [startsWith, mintRoundToken, happend, List.append_assoc]
  exact List.isPrefixOf_iff_prefix.mpr (List.prefix_append _ _)

end Affinity

section Declaration

def EXTENSIONS_MEMBER : JsString := "extensions"
def LEVEL : JsString := "level"
def ATTEMPT : JsString := "attempt"
def COUNTERSIGN : JsString := "countersign"

def levelText : Level → JsString
  | .L1 => "L1"
  | .L2 => "L2"

def countersignText : Countersign → JsString
  | .none => "none"
  | .host => "host"

def auditCapabilitySchema : Zod.Schema := Zod.strictObject
  [⟨Fields.SPEC_VERSION, Zod.nonEmpty⟩,
   ⟨LEVEL, Zod.oneOf [levelText .L1, levelText .L2]⟩,
   ⟨ATTEMPT, Zod.oneOf ["request"]⟩,
   ⟨COUNTERSIGN, Zod.oneOf [countersignText .none, countersignText .host]⟩]

def capabilityJson (capability : AuditCapability) : Json := .obj
  [(Fields.SPEC_VERSION, .str capability.spec_version), (LEVEL, .str (levelText capability.level)),
   (ATTEMPT, .str "request"), (COUNTERSIGN, .str (countersignText capability.countersign))]

-- What the schema's parse of a declaration gives.
def readCapability (declared : Json) : Option AuditCapability :=
  if auditCapabilitySchema (some declared) = none then
    match declared.get Fields.SPEC_VERSION with
    | some (.str version) => some
        { spec_version := version
          level := if Json.isText (declared.get LEVEL) (levelText .L2) then .L2 else .L1
          countersign := if Json.isText (declared.get COUNTERSIGN) (countersignText .host) then .host else .none }
    | _ => none
  else none

def extensionsOf (capabilities : Option Json) : Members :=
  match capabilities.bind fun value => value.get EXTENSIONS_MEMBER with
  | some (.obj members) => members
  | _ => []

def capabilityOf (capabilities : Option Json) : Option AuditCapability :=
  (Json.lookup (extensionsOf capabilities) EXTENSION_ID).bind readCapability

def membersOf : Option Json → Members
  | some (.obj members) => members
  | _ => []

-- The handshake's result with the declaration entered by `declareInto`.
def declareIn (declares : AuditCapability) (result : Members) : Members :=
  let capabilities := Json.lookup result "capabilities"
  let extensions := withMember (extensionsOf capabilities) EXTENSION_ID (capabilityJson declares)
  withMember result "capabilities" (.obj (withMember (membersOf capabilities) EXTENSIONS_MEMBER (.obj extensions)))

end Declaration

section Negotiation

inductive NegotiationOutcome where
  | negotiated
  | undeclared
  | mismatch
  | noSession
deriving DecidableEq

structure NegotiationResult where
  tool : AuditCapability
  host : Option AuditCapability
  outcome : NegotiationOutcome
  negotiated : Bool
  versionMatch : Bool
  levelFit : Bool
  countersignFit : Bool

def levelRank : Level → Nat
  | .L1 => 1
  | .L2 => 2

def countersignRank : Countersign → Nat
  | .none => 1
  | .host => 2

def levelSatisfies (tool host : AuditCapability) : Bool := levelRank tool.level ≥ levelRank host.level

def countersignSatisfies (host tool : AuditCapability) : Bool :=
  countersignRank host.countersign ≥ countersignRank tool.countersign

def negotiate (host : Option AuditCapability) (tool : AuditCapability) : NegotiationResult :=
  match host with
  | none => ⟨tool, none, .undeclared, false, false, false, false⟩
  | some host =>
      let versionMatch := decide (tool.spec_version = host.spec_version)
      let levelFit := levelSatisfies tool host
      let countersignFit := countersignSatisfies host tool
      let fits := versionMatch && levelFit && countersignFit
      ⟨tool, some host, if fits then .negotiated else .mismatch, fits, versionMatch, levelFit, countersignFit⟩

def sameCapability (a b : AuditCapability) : Bool :=
  a.spec_version = b.spec_version && a.level = b.level && a.countersign = b.countersign

end Negotiation

end AuditableMcp.Mcp
