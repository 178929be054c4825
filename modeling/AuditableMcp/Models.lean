import AuditableMcp.Vocabulary
import AuditableMcp.Zod

namespace AuditableMcp

open Zod

def SPEC_VERSION : JsString := "auditable-mcp/0.4"

section Patterns

-- The code units of an ASCII text.
def ascii (s : String) : List UInt16 := s.toList.map fun c => c.val.toUInt16

def lit (s : String) : Pattern UInt16 := Pattern.literal (ascii s)

-- A class written as the characters in it.
def cls (s : String) : Pattern UInt16 := .among ((ascii s).map fun c => (c, c))

def digitRange : UInt16 × UInt16 := (0x30, 0x39)
def upperRange : UInt16 × UInt16 := (0x41, 0x5A)
def lowerRange : UInt16 × UInt16 := (0x61, 0x7A)

def digit : Pattern UInt16 := .among [digitRange]

def lowerHex : Pattern UInt16 := .among [digitRange, (0x61, 0x66)]

def anyHex : Pattern UInt16 := .among [digitRange, (0x61, 0x66), (0x41, 0x46)]

def uuidWith (hex version variant : Pattern UInt16) : Pattern UInt16 := Pattern.all
  [.times hex 8, lit "-", .times hex 4, lit "-", version, .times hex 3, lit "-", variant, .times hex 3,
   lit "-", .times hex 12]

def nilUuid : Pattern UInt16 := lit "00000000-0000-0000-0000-000000000000"

def SESSION_ID_PATTERN : Pattern UInt16 := uuidWith lowerHex (cls "12345678") (cls "89ab")

def UUID_PATTERN : Pattern UInt16 := .either SESSION_ID_PATTERN nilUuid

def earlierUuidRegex : Pattern UInt16 := .either (uuidWith anyHex (cls "12345678") (cls "89abAB")) nilUuid

def leapYear : Pattern UInt16 := Pattern.any
  [.all [digit, digit, cls "2468", cls "048"],
   .all [digit, digit, cls "13579", cls "26"],
   .all [digit, digit, lit "0", cls "48"],
   .all [cls "02468", cls "048", lit "00"],
   .all [cls "13579", cls "26", lit "00"]]

-- 29 February of a leap year, or a day every year has.
def datePattern : Pattern UInt16 := Pattern.any
  [.all [leapYear, lit "-02-29"],
   .all [.times digit 4, lit "-",
     .any
       [.all [.either (.all [lit "0", cls "13578"]) (.all [lit "1", cls "02"]), lit "-",
          .any [.all [lit "0", cls "123456789"], .all [cls "12", digit], .all [lit "3", cls "01"]]],
        .all [.either (.all [lit "0", cls "469"]) (lit "11"), lit "-",
          .any [.all [lit "0", cls "123456789"], .all [cls "12", digit], lit "30"]],
        .all [lit "02", lit "-",
          .any [.all [lit "0", cls "123456789"], .all [lit "1", digit], .all [lit "2", cls "012345678"]]]]]]

def hourPattern : Pattern UInt16 := .either (.all [cls "01", digit]) (.all [lit "2", cls "0123"])

def sixtyPattern : Pattern UInt16 := .all [cls "012345", digit]

def fractionPattern : Pattern UInt16 := .optional (.all [lit ".", .many digit])

def DATETIME_PATTERN : Pattern UInt16 := Pattern.all
  [datePattern, lit "T", hourPattern, lit ":", sixtyPattern, lit ":", sixtyPattern, fractionPattern, lit "Z"]

-- Seconds were optional before v0.4.
def EARLIER_DATETIME_PATTERN : Pattern UInt16 := Pattern.all
  [datePattern, lit "T", hourPattern, lit ":", sixtyPattern,
   .optional (.all [lit ":", sixtyPattern, fractionPattern]), lit "Z"]

def CHAIN_HASH_PATTERN : Pattern UInt16 := .times lowerHex 64

def CONTEXT_HASH_PATTERN : Pattern UInt16 := .all [lit "sha256:", .times lowerHex 64]

-- [A-Za-z0-9_-]
def base64urlClass : Pattern UInt16 := .among [upperRange, lowerRange, digitRange, (0x5F, 0x5F), (0x2D, 0x2D)]

def SALTED_HASH_PATTERN : Pattern UInt16 := .times base64urlClass 43

def SIGNATURE_PATTERN : Pattern UInt16 := .many base64urlClass

-- The signature pattern of events sealed before v0.3: ^[A-Za-z0-9+/]+={0,2}$
def EARLIER_SIGNATURE_PATTERN : Pattern UInt16 := Pattern.all
  [.many (.among [upperRange, lowerRange, digitRange, (0x2B, 0x2B), (0x2F, 0x2F)]),
   .optional (lit "="), .optional (lit "=")]

end Patterns

namespace Outcome

def ATTEMPTED : JsString := "attempted"
def SUCCESS : JsString := "success"
def FAILED : JsString := "failed"
def ABORTED : JsString := "aborted"

def all : List JsString := [ATTEMPTED, SUCCESS, FAILED, ABORTED]

end Outcome

inductive Level where
  | L1
  | L2
deriving DecidableEq

inductive Countersign where
  | none
  | host
deriving DecidableEq

namespace Status

def ACCEPT : JsString := "accept"
def REJECT : JsString := "reject"
def UNAVAILABLE : JsString := "unavailable"

end Status

def abortReasonSchema : Schema := Zod.oneOf
  ["hash-mismatch", "host-rejected", "host-unavailable", "host-uncountersigned", "host-signature-invalid"]

def rejectReasonSchema : Schema := Zod.oneOf
  ["schema-invalid", "replay-detected", "signature-invalid", "l2-unsigned", "unknown-key"]

def targetResourceSchema : Schema := strictObject
  [⟨Fields.KIND, nonEmpty⟩, ⟨Fields.REF, nonEmpty⟩, ⟨Fields.SCOPE_HINT, Zod.optional string⟩]

def auditEventFields : List Field :=
  [⟨Fields.ID, regex UUID_PATTERN⟩,
   ⟨Fields.TRACEPARENT, Zod.optional string⟩,
   ⟨Fields.ACTION_TYPE, nonEmpty⟩,
   ⟨Fields.MUTATES, boolean⟩,
   ⟨Fields.EGRESS, boolean⟩,
   ⟨Fields.TARGET_RESOURCE, targetResourceSchema⟩,
   ⟨Fields.OUTCOME, Zod.oneOf Outcome.all⟩,
   ⟨Fields.REASON, Zod.optional abortReasonSchema⟩,
   ⟨Fields.ACTION_CONTEXT, Zod.optional record⟩,
   ⟨Fields.ACTION_CONTEXT_HASH, Zod.optional (regex CONTEXT_HASH_PATTERN)⟩,
   ⟨Fields.SIGNER_SEQ, Zod.optional safeNat⟩,
   ⟨Fields.KEY_ID, Zod.optional nonEmpty⟩,
   ⟨Fields.SIGNATURE, Zod.optional (regex SIGNATURE_PATTERN)⟩]

-- The Level-2 trio appears together or not at all.
def level2Together (event : Json) : Bool :=
  let present := [event.get Fields.SIGNER_SEQ, event.get Fields.KEY_ID, event.get Fields.SIGNATURE].filter
    Option.isSome
  present.length = 0 || present.length = 3

def LEVEL2_TOGETHER : JsString := "signer_seq, key_id, and signature must appear together or not at all"

def abortedHasReason (event : Json) : Bool :=
  !(Json.isText (event.get Fields.OUTCOME) Outcome.ABORTED) || (event.get Fields.REASON).isSome

def ABORTED_REASON : JsString := "an aborted outcome requires a reason"

def currentEventFields : List Field :=
  [⟨Fields.SPEC_VERSION, Zod.oneOf [SPEC_VERSION]⟩,
   ⟨Fields.SESSION_ID, regex SESSION_ID_PATTERN⟩,
   ⟨Fields.TS, regex DATETIME_PATTERN⟩] ++ auditEventFields ++
  [⟨Fields.ACTION_CONTEXT_SALTED_HASH, Zod.optional (regex SALTED_HASH_PATTERN)⟩]

def auditEventSchema : Schema :=
  refine
    (refine (strictObject currentEventFields) abortedHasReason ABORTED_REASON [Fields.REASON])
    level2Together LEVEL2_TOGETHER [Fields.SIGNATURE]

def KNOWN_SPEC_VERSIONS : List JsString :=
  ["auditable-mcp/0.1", "auditable-mcp/0.1.1", "auditable-mcp/0.2", "auditable-mcp/0.3", "auditable-mcp/0.4"]

def EARLIER_SPEC_VERSIONS : List JsString := KNOWN_SPEC_VERSIONS.dropLast

def isEarlierSpecVersion : Option Json → Bool
  | some (.str version) => version ∈ EARLIER_SPEC_VERSIONS
  | _ => false

def earlierSharedFields : List Field :=
  [⟨Fields.ID, regex earlierUuidRegex⟩,
   ⟨Fields.TS, regex EARLIER_DATETIME_PATTERN⟩,
   ⟨Fields.CALL_ID, nonEmpty⟩,
   ⟨Fields.TRACEPARENT, Zod.optional string⟩,
   ⟨Fields.ACTION_TYPE, nonEmpty⟩,
   ⟨Fields.MUTATES, boolean⟩,
   ⟨Fields.EGRESS, boolean⟩,
   ⟨Fields.TARGET_RESOURCE, targetResourceSchema⟩,
   ⟨Fields.OUTCOME, Zod.oneOf Outcome.all⟩,
   ⟨Fields.ACTION_CONTEXT, Zod.optional record⟩,
   ⟨Fields.ACTION_CONTEXT_HASH, Zod.optional (regex CONTEXT_HASH_PATTERN)⟩]

def version01EventFields : List Field :=
  earlierSharedFields ++
  [⟨Fields.SPEC_VERSION, Zod.oneOf ["auditable-mcp/0.1"]⟩,
   ⟨Fields.REASON, Zod.optional string⟩,
   ⟨"sequence", Zod.optional safeNat⟩,
   ⟨Fields.KEY_ID, Zod.optional string⟩,
   ⟨Fields.SIGNATURE, Zod.optional string⟩]

def version01EventSchema : Schema := strictObject version01EventFields

def version011Or02EventFields (version : JsString) : List Field :=
  earlierSharedFields ++
  [⟨Fields.SPEC_VERSION, Zod.oneOf [version]⟩,
   ⟨Fields.REASON, Zod.optional (Zod.oneOf ["hash-mismatch", "host-rejected", "host-unavailable"])⟩,
   ⟨Fields.SIGNER_SEQ, Zod.optional safeNat⟩,
   ⟨Fields.KEY_ID, Zod.optional nonEmpty⟩,
   ⟨Fields.SIGNATURE, Zod.optional (regex EARLIER_SIGNATURE_PATTERN)⟩]

def version011Or02EventSchema (version : JsString) : Schema :=
  refine (strictObject (version011Or02EventFields version)) abortedHasReason ABORTED_REASON [Fields.REASON]

def version03EventFields : List Field :=
  [⟨Fields.SPEC_VERSION, Zod.oneOf ["auditable-mcp/0.3"]⟩,
   ⟨Fields.SESSION_ID, regex SESSION_ID_PATTERN⟩,
   ⟨Fields.TS, regex EARLIER_DATETIME_PATTERN⟩] ++ auditEventFields

def version03EventSchema : Schema :=
  refine
    (refine (strictObject version03EventFields) abortedHasReason ABORTED_REASON [Fields.REASON])
    level2Together LEVEL2_TOGETHER [Fields.SIGNATURE]

-- The own members of `EARLIER_EVENT_SCHEMAS`.
def EARLIER_EVENT_SCHEMAS (version : JsString) : Option Schema :=
  if version = "auditable-mcp/0.1" then some version01EventSchema
  else if version = "auditable-mcp/0.1.1" then some (version011Or02EventSchema "auditable-mcp/0.1.1")
  else if version = "auditable-mcp/0.2" then some (version011Or02EventSchema "auditable-mcp/0.2")
  else if version = "auditable-mcp/0.3" then some version03EventSchema
  else none

def countersignTogether (response : Json) : Bool :=
  (response.get Fields.HOST_SIGNATURE).isSome = (response.get Fields.HOST_KEY_ID).isSome &&
  (response.get Fields.HOST_SIGNATURE).isSome = (response.get Fields.LOG_ID).isSome

def acceptResponseSchema : Schema :=
  refine
    (strictObject
      [⟨Fields.STATUS, Zod.oneOf [Status.ACCEPT]⟩,
       ⟨Fields.SEQ, safeNat⟩,
       ⟨Fields.RECORD_HASH, regex CHAIN_HASH_PATTERN⟩,
       ⟨Fields.HOST_TS, regex DATETIME_PATTERN⟩,
       ⟨Fields.PREVIOUS_HASH, regex CHAIN_HASH_PATTERN⟩,
       ⟨Fields.HOST_SIGNATURE, Zod.optional (regex SIGNATURE_PATTERN)⟩,
       ⟨Fields.HOST_KEY_ID, Zod.optional nonEmpty⟩,
       ⟨Fields.LOG_ID, Zod.optional nonEmpty⟩])
    countersignTogether "host_signature, host_key_id, and log_id must appear together or not at all" [Fields.LOG_ID]

def rejectResponseSchema : Schema := strictObject
  [⟨Fields.STATUS, Zod.oneOf [Status.REJECT]⟩, ⟨Fields.REASON, rejectReasonSchema⟩]

def unavailableResponseSchema : Schema := strictObject
  [⟨Fields.STATUS, Zod.oneOf [Status.UNAVAILABLE]⟩, ⟨Fields.REASON, Zod.oneOf ["internal-error"]⟩]

-- `z.discriminatedUnion('status', …)`
def attemptResponseSchema : Schema
  | some (.obj members) =>
      let status := Json.get (.obj members) Fields.STATUS
      if Json.isText status Status.ACCEPT then acceptResponseSchema (some (.obj members))
      else if Json.isText status Status.REJECT then rejectResponseSchema (some (.obj members))
      else if Json.isText status Status.UNAVAILABLE then unavailableResponseSchema (some (.obj members))
      else some ⟨[Fields.STATUS], .invalidValue⟩
  | _ => some ⟨[], .invalidType⟩

-- A structural validation failure: a schema's first issue, or a lone surrogate.
inductive ValidationError where
  | issue (issue : Issue)
  | loneSurrogate
deriving DecidableEq

def firstError (schema : Schema) (event : Option Json) : Option ValidationError :=
  (schema event).map .issue

def surrogateError (event : Option Json) : Option ValidationError :=
  if event.any hasLoneSurrogate then some .loneSurrogate else none

def firstValidationError (event : Option Json) : Option ValidationError :=
  (firstError auditEventSchema event).or (surrogateError event)

def firstSealedValidationError (event : Option Json) : Option ValidationError :=
  match event.bind (·.get Fields.SPEC_VERSION) with
  | some (.str version) =>
      match EARLIER_EVENT_SCHEMAS version with
      | some earlier => (firstError earlier event).or (surrogateError event)
      | none => firstValidationError event
  | _ => firstValidationError event

end AuditableMcp
