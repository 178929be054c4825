import AuditableMcp.Tool.Clearance

-- Acquiring an action: one attempt handed over, and what the checks make of its answer.
namespace AuditableMcp

open Program

-- Calls that are made once the attempt is out and before the handler runs, or after it.
def SessionCall.Past : SessionCall → Prop
  | .sendAttempt _ => False
  | .handler _ => False
  | _ => True

theorem past_of_only {α : Type} {program : Tool α} (h : program.Only SessionCall.Past) {trace : Trace}
    {result : Option (Except JsError α)} (hruns : Runs program trace result) :
    attempts trace = [] ∧ handlings trace = [] := by
  have hcalls := h.runs hruns
  constructor
  · refine List.filterMap_eq_nil_iff.mpr ?_
    rintro ⟨call, answer⟩ hmem
    have hpast := hcalls _ hmem
    cases call with
    | sendAttempt => exact hpast.elim
    | _ => rfl
  · refine List.filterMap_eq_nil_iff.mpr ?_
    rintro ⟨call, answer⟩ hmem
    have hpast := hcalls _ hmem
    cases call with
    | handler => exact hpast.elim
    | _ => rfl

theorem SessionCall.Building.past {c : SessionCall} (h : c.Building) : c.Past := by
  cases c <;> trivial

-- The fields of an action that marking it and disposing of it change.
structure Fresh (action : AuditedAction) : Prop where
  unmarked : action.outcome = none
  unfinished : action.finished = false

section

variable {P : Primitives} {session : AmcpSession} {spec : AuditSpec} {action : AuditedAction} {trace : Trace}

theorem only_numbering {α : Type} {S : SessionCall → Prop} {body : Option Nat → Tool α}
    (hsection : ∀ c, c.Sectional → S c) (h : ∀ signerSeq, (body signerSeq).Only S) : (numbering session body).Only S := by
  unfold numbering
  split
  · exact h none
  · refine (only_ask (hsection .enter trivial)).bind fun signerSeq => Only.andFinally ?_ (only_ask (hsection .leave trivial))
    exact (h _).bind fun result => (only_ask (hsection (.advance _) trivial)).bind fun _ => only_pure _

theorem only_emitOutcome (outcome : JsString) (reason : Option JsString) :
    (emitOutcome session action outcome reason).Only SessionCall.Past := by
  refine only_numbering (fun c hc => ?_) fun signerSeq => ?_
  · cases c <;> trivial
  · refine ((only_build outcome signerSeq reason).mono fun c hc => hc.past).bind fun event => ?_
    exact only_askOk (c := SessionCall.sendOutcome event) trivial

theorem only_emitAborted (reason : AbortReason) : (emitAbortedBestEffort session action reason).Only SessionCall.Past :=
  (only_emitOutcome _ _).settle.bind fun _ => only_pure _

theorem only_abort {α : Type} (reason : AbortReason) : (abort session action reason : Tool α).Only SessionCall.Past :=
  (only_emitAborted reason).bind fun _ => only_ofExcept _

theorem only_clear (sent : Sent) : (clear P session action sent).Only SessionCall.Past := by
  have hstatus : (checkStatus session action sent).Only SessionCall.Past := by
    unfold checkStatus
    split
    · exact (only_emitAborted _).bind fun _ => only_ofExcept _
    · refine (only_ofExcept _).bind fun status => ?_
      split
      · exact only_pure _
      · exact only_abort _
  have hcountersigned : ∀ response, (checkCountersigned P session action response).Only SessionCall.Past := by
    intro response
    unfold checkCountersigned
    split
    · exact only_abort _
    · split
      · refine (only_ofExcept _).bind fun payload => ?_
        refine (only_askOk (c := SessionCall.verify _ _ payload) trivial).bind fun verdict => ?_
        cases verdict with
        | valid => exact only_pure _
        | invalid => exact only_abort _
        | unavailable => exact only_abort _
      · exact only_pure _
  have hstop : ∀ response, (checkPollutedStop P session action sent.attempt response).Only SessionCall.Past := by
    intro response
    unfold checkPollutedStop
    split
    · refine (only_ofExcept _).bind fun expected => ?_
      split
      · exact only_pure _
      · exact only_abort _
    · exact only_pure _
  exact hstatus.bind fun response => (hcountersigned response).bind fun _ => (hstop response).bind fun _ => only_pure _

theorem only_create (id : JsString) (target : TargetResource) :
    (AuditedAction.create P id target spec).Only SessionCall.Inner := by
  have hsalt : newSalt.Only SessionCall.Inner := (only_ask trivial).bind fun bytes => only_pure _
  unfold AuditedAction.create
  dsimp only
  split
  · refine (only_pure none).bind fun commitHash => ?_
    split
    · exact (only_pure none).bind fun disclosure => only_pure _
    · exact hsalt.bind fun salt => (only_pure _).bind fun disclosure => only_pure _
  · refine (only_ofExcept _).bind fun hash => (only_pure _).bind fun commitHash => ?_
    split
    · exact (only_pure none).bind fun disclosure => only_pure _
    · exact hsalt.bind fun salt => (only_pure _).bind fun disclosure => only_pure _

theorem only_newAction : (newAction P spec).Only SessionCall.Inner :=
  (only_ofExcept _).bind fun target => (only_askOk (c := SessionCall.newId) trivial).bind fun id => only_create id target

theorem create_fresh (id : JsString) (target : TargetResource) :
    (AuditedAction.create P id target spec).Returns Fresh := by
  unfold AuditedAction.create
  dsimp only
  split
  · refine Returns.bind _ fun commitHash => ?_
    split
    · exact Returns.bind _ fun disclosure => ⟨rfl, rfl⟩
    · exact Returns.bind _ fun salt => Returns.bind _ fun disclosure => ⟨rfl, rfl⟩
  · refine Returns.bind _ fun hash => Returns.bind _ fun commitHash => ?_
    split
    · exact Returns.bind _ fun disclosure => ⟨rfl, rfl⟩
    · exact Returns.bind _ fun salt => Returns.bind _ fun disclosure => ⟨rfl, rfl⟩

theorem newAction_fresh : (newAction P spec).Returns Fresh :=
  Returns.bind _ fun target => Returns.bind _ fun id => create_fresh id target

-- How acquiring an action goes: its attempt does not go out, or the SDK was misused, or
-- its answer is still to come or being looked at, or the checks on the answer have ended.
inductive Acquires (P : Primitives) (session : AmcpSession) (trace : Trace) :
    Option (Except JsError AuditedAction) → Prop where
  | unsent (result : Option (Except JsError AuditedAction)) (hattempts : attempts trace = [])
      (houtcomes : outcomes trace = []) (hresult : ∀ action, result ≠ some (.ok action)) :
      Acquires P session trace result
  | misused (attempt : Json) (message : JsString) (e : JsError)
      (hattempts : attempts trace = [(attempt, some (.error (.usageError message)))]) :
      Acquires P session trace (some (.error e))
  | waiting (attempt : Json) (answer : AttemptAnswer) (hattempts : attempts trace = [(attempt, answer)]) :
      Acquires P session trace none
  | concluded (action : AuditedAction) (attempt : Json) (answer : Except JsError (Option Json)) (before rest : Trace)
      (result : Except JsError AuditedAction) (hfresh : Fresh action)
      (hbuilt : Built action Outcome.ATTEMPTED none attempt) (hsplit : trace = before ++ rest)
      (hattempts : attempts before = [(attempt, some answer)]) (houtcomes : outcomes before = [])
      (hverdicts : verdicts before = []) (hrest : attempts rest = [])
      (hconcludes : Concludes P session action attempt answer rest result) :
      Acquires P session trace (some result)

theorem runs_action (hkeeps : SignerKeeps trace) {result : Option (Except JsError AuditedAction)}
    (h : Runs (AmcpSession.action P session spec) trace result) : Acquires P session trace result ∧ handlings trace = [] := by
  rcases runs_bind.mp h with ⟨action, first, rest, hnew, hrest, rfl⟩ | ⟨e, hnew, rfl⟩ | ⟨hnew, rfl⟩
  · have hfirst := inward_of_inner (only_newAction.runs hnew)
    have hfresh := newAction_fresh.runs hnew
    have hkept := hkeeps.of_append.2
    rcases runs_bind.mp hrest with ⟨sent, sending, last, hsend, hclear, rfl⟩ | ⟨e, hsend, rfl⟩ | ⟨hsend, rfl⟩
    · have hsends := runs_sendNumbered hkept.of_append.1 hsend
      obtain ⟨hlast, hunhandled⟩ := past_of_only (only_clear sent) hclear
      refine ⟨?_, by simp [hfirst.handlings, hsends.handlings, hunhandled]⟩
      rcases hsends.attempts with ⟨-, hnever⟩ | ⟨attempt, answer, hattempts, hbuilt, hends⟩
      · exact absurd rfl (hnever sent)
      · obtain ⟨rfl, hreports⟩ := hends.sent sent rfl
        cases result with
        | none =>
            apply Acquires.waiting sent.attempt answer
            simp [hfirst.attempts, hattempts, hlast]
        | some result =>
            obtain ⟨answer, rfl⟩ : ∃ given, answer = some given := by
              rcases hreports with ⟨response, rfl, -⟩ | ⟨fault, rfl, -⟩
              · exact ⟨_, rfl⟩
              · exact ⟨_, rfl⟩
            refine .concluded action sent.attempt answer (first ++ sending) last result hfresh hbuilt (by simp) ?_ ?_ ?_
              hlast (runs_clear hreports hclear)
            · simp [hfirst.attempts, hattempts]
            · simp [hfirst.outcomes, hsends.outcomes]
            · simp [hfirst.verdicts, hsends.verdicts]
    · have hsends := runs_sendNumbered hkept hsend
      refine ⟨?_, by simp [hfirst.handlings, hsends.handlings]⟩
      rcases hsends.attempts with ⟨hattempts, -⟩ | ⟨attempt, answer, hattempts, -, hends⟩
      · exact .unsent _ (by simp [hfirst.attempts, hattempts]) (by simp [hfirst.outcomes, hsends.outcomes]) (by simp)
      · obtain ⟨message, rfl⟩ := hends.misuse e rfl
        apply Acquires.misused attempt message e
        simp [hfirst.attempts, hattempts]
    · have hsends := runs_sendNumbered hkept hsend
      refine ⟨?_, by simp [hfirst.handlings, hsends.handlings]⟩
      rcases hsends.attempts with ⟨hattempts, -⟩ | ⟨attempt, answer, hattempts, -⟩
      · exact .unsent _ (by simp [hfirst.attempts, hattempts]) (by simp [hfirst.outcomes, hsends.outcomes]) (by simp)
      · apply Acquires.waiting attempt answer
        simp [hfirst.attempts, hattempts]
  · have hfirst := inward_of_inner (only_newAction.runs hnew)
    exact ⟨.unsent _ hfirst.attempts hfirst.outcomes (by simp), hfirst.handlings⟩
  · have hfirst := inward_of_inner (only_newAction.runs hnew)
    exact ⟨.unsent _ hfirst.attempts hfirst.outcomes (by simp), hfirst.handlings⟩

end

end AuditableMcp
