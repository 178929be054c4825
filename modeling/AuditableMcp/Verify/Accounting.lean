import AuditableMcp.Models
import AuditableMcp.Hashing
import AuditableMcp.Library.OrderedMap

namespace AuditableMcp

-- `typeof value`
def typeOf : Option Json → JsString
  | none => "undefined"
  | some .null => "object"
  | some (.bool _) => "boolean"
  | some (.num _) => "number"
  | some (.str _) => "string"
  | some (.arr _) => "object"
  | some (.obj _) => "object"

-- An operation's correlation key. The source writes it as the JSON of a list of
-- strings, of four for a session's operation and of three for a call's.
inductive OperationKey where
  | session (sessionType sessionId idType id : JsString)
  | call (callId id : JsString)
deriving DecidableEq

def operationKey (P : Primitives) (sessionId id : Option Json) : Except JsError OperationKey := do
  let sessionText ← stringOfOption P sessionId
  let idText ← stringOfOption P id
  return .session (typeOf sessionId) sessionText (typeOf id) idText

def isSessionScoped (event : Json) : Bool := !isEarlierSpecVersion (event.get Fields.SPEC_VERSION)

-- `inner !== null && typeof inner === 'object'`
def innerObject (inner : Option Json) : Option Json := inner.filter Json.isObject

-- The JSON of `[keyId, sessionId, signerSeq]`, in which no number but a finite one has a text.
abbrev NumberKey := JsString × JsString × Option ℚ

def numberKey (keyId sessionId : JsString) (signerSeq : JsNum) : NumberKey :=
  (keyId, sessionId, match signerSeq with | .fin value => some value | _ => none)

structure UnaccountedSignerSeq where
  key_id : JsString
  session_id : JsString
  first : Nat
  last : Nat
deriving DecidableEq

-- The runs of values below the largest that a sorted list without repetition leaves out.
def runsFrom (next : Nat) : List Nat → List (Nat × Nat)
  | [] => []
  | value :: rest =>
      if next < value then (next, value - 1) :: runsFrom (value + 1) rest else runsFrom (value + 1) rest

def missingRuns (present : List Nat) : List (Nat × Nat) :=
  runsFrom 0 ((present.dedup).insertionSort (· ≤ ·))

-- A refusal accounts for the smallest missing value below its own, which is the first
-- of the first run.
def accountFor (missing : List (Nat × Nat)) (refusal : Nat) : List (Nat × Nat) :=
  match missing with
  | [] => []
  | (first, last) :: rest =>
      if refusal ≤ first then (first, last) :: rest
      else if last < first + 1 then rest
      else (first + 1, last) :: rest

structure SignerGroup where
  keyId : JsString
  sessionId : JsString
  values : List Nat
  refusals : List Nat

-- `Number.isSafeInteger(signerSeq) && signerSeq >= 0`
def safeNatural : JsNum → Option Nat
  | .fin value => if value.den = 1 ∧ 0 ≤ value ∧ value ≤ MAX_SAFE_INTEGER then some value.num.toNat else none
  | _ => none

def accountedNumber (event : Json) : Option (JsString × JsString × Nat) :=
  match event.get Fields.KEY_ID, event.get Fields.SESSION_ID, event.get Fields.SIGNER_SEQ with
  | some (.str keyId), some (.str sessionId), some (.num signerSeq) =>
      (safeNatural signerSeq).map fun n => (keyId, sessionId, n)
  | _, _, _ => none

structure Accounting where
  sealedAttempts : List OperationKey
  groups : OrderedMap (JsString × JsString) SignerGroup

def REFUSAL_REASONS : List JsString := [AbortReason.hostRejected.text, AbortReason.hostUnavailable.text]

-- Whether an event is the sealed refusal of an attempt the host did not seal.
def isUncorrelatedRefusal (P : Primitives) (sealedAttempts : List OperationKey) (operation : OperationKey)
    (event : Json) : Except JsError Bool :=
  if Json.isText (event.get Fields.OUTCOME) Outcome.ABORTED then do
    let reason ← stringOfOption P (event.get Fields.REASON)
    return reason ∈ REFUSAL_REASONS && operation ∉ sealedAttempts
  else .ok false

def SignerGroup.add (group : SignerGroup) (value : Nat) (refusal : Bool) : SignerGroup :=
  { group with
    values := group.values ++ [value]
    refusals := if refusal then group.refusals ++ [value] else group.refusals }

def accountEvent (P : Primitives) (accounting : Accounting) (event : Json) : Except JsError Accounting := do
  let operation ← operationKey P (event.get Fields.SESSION_ID) (event.get Fields.ID)
  let refusal ← isUncorrelatedRefusal P accounting.sealedAttempts operation event
  let sealedAttempts :=
    if Json.isText (event.get Fields.OUTCOME) Outcome.ATTEMPTED then addTo accounting.sealedAttempts operation
    else accounting.sealedAttempts
  match accountedNumber event with
  | none => return { accounting with sealedAttempts }
  | some (keyId, sessionId, value) =>
      let entry := (accounting.groups.get (keyId, sessionId)).getD ⟨keyId, sessionId, [], []⟩
      return { sealedAttempts, groups := accounting.groups.set (keyId, sessionId) (entry.add value refusal) }

-- The events the accounting reads, in chain order.
def listedEvents (events : List (Option Json)) : List Json :=
  events.filterMap fun event => (innerObject event).filter fun value => isSessionScoped value

def signerGroups (P : Primitives) (events : List (Option Json)) : Except JsError Accounting :=
  (listedEvents events).foldlM (accountEvent P) ⟨[], .empty⟩

def SignerGroup.unaccounted (group : SignerGroup) : List UnaccountedSignerSeq :=
  let missing := (group.refusals.insertionSort (· ≤ ·)).foldl accountFor (missingRuns group.values)
  missing.map fun run => ⟨group.keyId, group.sessionId, run.1, run.2⟩

def unaccountedSignerSeq (P : Primitives) (events : List (Option Json)) :
    Except JsError (List UnaccountedSignerSeq) := do
  let accounting ← signerGroups P events
  return accounting.groups.entries.flatMap fun entry => entry.2.unaccounted

end AuditableMcp
