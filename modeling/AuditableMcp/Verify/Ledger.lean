import AuditableMcp.Verify.Chain

namespace AuditableMcp

-- `Set.has` on the `seq` of issues: values by value, objects by reference.
def sameSeq : IssueSeq → IssueSeq → Bool
  | .ledger, .ledger => true
  | .record i a, .record j b =>
      match a, b with
      | some (.arr _), some (.arr _) => i = j
      | some (.obj _), some (.obj _) => i = j
      | some (.num .nan), some (.num .nan) => true
      | a, b => Json.strictEq a b
  | _, _ => false

def specVersionRank (version : Option Json) : Option Nat :=
  match version with
  | some (.str text) => KNOWN_SPEC_VERSIONS.findIdx? (· = text)
  | _ => none

structure VersionWalk where
  index : Nat
  -- One past the latest rank seen, 0 before any.
  latest : Nat
  issues : List VerifyIssue

def structuralIssue (P : Primitives) (latest : Nat) (inner : Option Json) : Except JsError (Option AnomalyDetail) :=
  let version := (innerObject inner).bind fun event => event.get Fields.SPEC_VERSION
  match firstSealedValidationError inner with
  | some error => .ok (some (.validation error))
  | none =>
      match specVersionRank version with
      | some rank =>
          if rank + 1 < latest then do
            let text ← stringOfOption P version
            return some (.text (JsString.ofString "spec_version " ++ text ++
              JsString.ofString " is sealed after a record of a later version"))
          else .ok none
      | none => .ok none

-- One turn of the loop of `verifyLedger`. `reported` are the records found schema-invalid
-- by `verifyChain`.
def checkVersion (P : Primitives) (inputs : VerifyInputs) (reported : List IssueSeq) (walk : VersionWalk)
    (record : StoredRecord) : Except JsError VersionWalk := do
  let inner ← inputs.adapter.eventOf record.event
  let version := (innerObject inner).bind fun event => event.get Fields.SPEC_VERSION
  let structural ← structuralIssue P walk.latest inner
  let at? := IssueSeq.record walk.index record.seq
  let latest := max walk.latest (((specVersionRank version).map (· + 1)).getD 0)
  match structural with
  | some detail =>
      if reported.any (sameSeq at?) then return { walk with index := walk.index + 1, latest }
      else return ⟨walk.index + 1, latest, walk.issues ++ [⟨at?, .schemaInvalid, detail⟩]⟩
  | none => return { walk with index := walk.index + 1, latest }

def verifyLedger (P : Primitives) (records : List StoredRecord) (inputs : VerifyInputs) :
    Except JsError VerifyReport := do
  let report ← verifyChain P records inputs
  let reported := (report.issues.filter fun issue => issue.kind = .schemaInvalid).map VerifyIssue.seq
  let walk ← records.foldlM (checkVersion P inputs reported) ⟨0, 0, []⟩
  if walk.issues.isEmpty then return report
  else return { report with ok := false, issues := report.issues ++ walk.issues, complete := false }

end AuditableMcp
