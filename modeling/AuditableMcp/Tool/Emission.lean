import AuditableMcp.Tool.Session

-- What the programs of the tool's side ask of the code they are given, run by run.
namespace AuditableMcp

open Program

abbrev Trace := List (Exchange SessionCall.Answer)

-- What a transport made of an attempt, where it has.
abbrev AttemptAnswer := Option (Except JsError (Option Json))

def attemptOf : Exchange SessionCall.Answer → Option (Json × AttemptAnswer)
  | ⟨.sendAttempt event, answer⟩ => some (event, answer)
  | _ => none

def outcomeOf : Exchange SessionCall.Answer → Option Json
  | ⟨.sendOutcome event, _⟩ => some event
  | _ => none

def handlingOf : Exchange SessionCall.Answer → Option (Json × Option HandlerRun)
  | ⟨.handler accept, answer⟩ => some (accept, answer)
  | _ => none

def verdictOf : Exchange SessionCall.Answer → Option Verdict
  | ⟨.verify _ _ _, some (.ok verdict)⟩ => some verdict
  | _ => none

-- The attempts a run handed to the transport, the outcomes it handed to it, the times it
-- gave an accept to the handler, and what its verifier said.
def attempts (trace : Trace) : List (Json × AttemptAnswer) := trace.filterMap attemptOf

def outcomes (trace : Trace) : List Json := trace.filterMap outcomeOf

def handlings (trace : Trace) : List (Json × Option HandlerRun) := trace.filterMap handlingOf

def verdicts (trace : Trace) : List Verdict := trace.filterMap verdictOf

@[simp] theorem attempts_append (first rest : Trace) : attempts (first ++ rest) = attempts first ++ attempts rest :=
  List.filterMap_append

@[simp] theorem outcomes_append (first rest : Trace) : outcomes (first ++ rest) = outcomes first ++ outcomes rest :=
  List.filterMap_append

@[simp] theorem handlings_append (first rest : Trace) : handlings (first ++ rest) = handlings first ++ handlings rest :=
  List.filterMap_append

@[simp] theorem verdicts_append (first rest : Trace) : verdicts (first ++ rest) = verdicts first ++ verdicts rest :=
  List.filterMap_append

-- Calls that reach neither the host nor the handler.
def SessionCall.Inner : SessionCall → Prop
  | .sendAttempt _ => False
  | .sendOutcome _ => False
  | .handler _ => False
  | .verify _ _ _ => False
  | _ => True

-- The calls of the numbering section, and of putting an event together.
def SessionCall.Sectional : SessionCall → Prop
  | .enter => True
  | .advance _ => True
  | .leave => True
  | _ => False

def SessionCall.Building : SessionCall → Prop
  | .now => True
  | .sign _ _ => True
  | _ => False

theorem SessionCall.Sectional.inner {c : SessionCall} (h : c.Sectional) : c.Inner := by
  cases c <;> trivial

theorem SessionCall.Building.inner {c : SessionCall} (h : c.Building) : c.Inner := by
  cases c <;> trivial

-- What a part of a run that stays inside asks nobody else.
structure Inward (trace : Trace) : Prop where
  attempts : attempts trace = []
  outcomes : outcomes trace = []
  handlings : handlings trace = []
  verdicts : verdicts trace = []

theorem inward_of_inner {trace : Trace} (h : ∀ exchange ∈ trace, exchange.call.Inner) : Inward trace := by
  have hnone : ∀ exchange ∈ trace, attemptOf exchange = none ∧ outcomeOf exchange = none ∧
      handlingOf exchange = none ∧ verdictOf exchange = none := by
    rintro ⟨call, answer⟩ hmem
    have hinner := h _ hmem
    cases call with
    | sendAttempt => exact hinner.elim
    | sendOutcome => exact hinner.elim
    | handler => exact hinner.elim
    | verify => exact hinner.elim
    | _ => exact ⟨rfl, rfl, rfl, rfl⟩
  exact ⟨List.filterMap_eq_nil_iff.mpr fun e he => (hnone e he).1,
    List.filterMap_eq_nil_iff.mpr fun e he => (hnone e he).2.1,
    List.filterMap_eq_nil_iff.mpr fun e he => (hnone e he).2.2.1,
    List.filterMap_eq_nil_iff.mpr fun e he => (hnone e he).2.2.2⟩

-- The signer keeps what an event says of its operation.
def Exchange.Kept : Exchange SessionCall.Answer → Prop
  | ⟨.sign event _, some (.ok signed)⟩ => ∀ name ∈ [Fields.ID, Fields.OUTCOME, Fields.REASON],
      signed.get name = event.get name
  | _ => True

def SignerKeeps (trace : Trace) : Prop := ∀ exchange ∈ trace, Exchange.Kept exchange

theorem SignerKeeps.of_append {first rest : Trace} (h : SignerKeeps (first ++ rest)) :
    SignerKeeps first ∧ SignerKeeps rest :=
  ⟨fun e he => h e (List.mem_append_left _ he), fun e he => h e (List.mem_append_right _ he)⟩

section

variable {P : Primitives} {session : AmcpSession} {action : AuditedAction} {trace : Trace}

theorem runs_askOk {α : Type} {c : SessionCall} {h : c.Answer = Except JsError α} {result : Option (Except JsError α)} :
    Runs (askOk c h) trace result ↔ (trace = [⟨c, none⟩] ∧ result = none) ∨
      ∃ x : c.Answer, trace = [⟨c, some x⟩] ∧ result = some (h ▸ x) := by
  unfold askOk
  rw [runs_bind]
  simp only [runs_ask, runs_ofExcept]
  constructor
  · rintro (⟨answer, first, rest, ⟨-, hf⟩ | ⟨x, rfl, hx⟩, ⟨rfl, rfl⟩, rfl⟩ | ⟨e, ⟨-, he⟩ | ⟨x, -, hx⟩, rfl⟩ |
      ⟨⟨rfl, -⟩ | ⟨x, -, hx⟩, rfl⟩)
    · cases hf
    · obtain rfl : answer = x := by simpa using hx
      exact Or.inr ⟨answer, by simp, rfl⟩
    · cases he
    · simp at hx
    · exact Or.inl ⟨rfl, rfl⟩
    · cases hx
  · rintro (⟨rfl, rfl⟩ | ⟨x, rfl, rfl⟩)
    · exact Or.inr (Or.inr ⟨Or.inl ⟨rfl, trivial⟩, rfl⟩)
    · exact Or.inl ⟨x, _, [], Or.inr ⟨x, rfl, rfl⟩, ⟨rfl, rfl⟩, by simp⟩

theorem only_askOk {α : Type} {S : SessionCall → Prop} {c : SessionCall} {h : c.Answer = Except JsError α} (hc : S c) :
    (askOk c h).Only S := (only_ask hc).bind fun _ => only_ofExcept _

theorem only_build (outcome : JsString) (signerSeq : Option Nat) (reason : Option JsString) :
    (build session action outcome signerSeq reason).Only SessionCall.Building := by
  unfold build
  refine Only.bind (only_askOk (c := SessionCall.now) trivial) fun ts => ?_
  dsimp only
  split
  · unfold stamp
    split
    · rename_i n hn
      exact only_askOk (c := SessionCall.sign _ n) trivial
    · exact only_pure _
  · exact only_ofExcept _

theorem inward_build {outcome : JsString} {signerSeq : Option Nat} {reason : Option JsString}
    {result : Option (Except JsError Json)} (h : Runs (build session action outcome signerSeq reason) trace result) :
    Inward trace :=
  inward_of_inner fun exchange he => ((only_build outcome signerSeq reason).runs h exchange he).inner

-- What an event says of its operation, before it is signed.
theorem event_names (ts outcome : JsString) (reason : Option JsString) :
    (action.event session ts outcome reason).get Fields.ID = some (.str action.id) ∧
      (action.event session ts outcome reason).get Fields.OUTCOME = some (.str outcome) ∧
      (action.event session ts outcome reason).get Fields.REASON = reason.map .str := by
  unfold AuditedAction.event
  cases reason <;> cases action.disclose <;> cases action.commitHash <;> cases action.saltedHash <;>
    exact ⟨rfl, rfl, rfl⟩

-- An event that was put together.
structure Built (action : AuditedAction) (outcome : JsString) (reason : Option JsString) (event : Json) : Prop where
  id : event.get Fields.ID = some (.str action.id)
  outcome : event.get Fields.OUTCOME = some (.str outcome)
  reason : event.get Fields.REASON = reason.map .str

theorem built_of_runs {outcome : JsString} {signerSeq : Option Nat} {reason : Option JsString} {event : Json}
    (hkeeps : SignerKeeps trace) (h : Runs (build session action outcome signerSeq reason) trace (some (.ok event))) :
    Built action outcome reason event := by
  unfold build at h
  rcases runs_bind.mp h with ⟨ts, first, rest, -, hrest, rfl⟩ | ⟨e, -, he⟩ | ⟨-, hnone⟩
  · obtain ⟨hid, houtcome, hreason⟩ := @event_names session action ts outcome reason
    dsimp only at hrest
    split at hrest
    · unfold stamp at hrest
      split at hrest
      · rcases runs_askOk.mp hrest with ⟨-, hnone⟩ | ⟨answer, rfl, hanswer⟩
        · cases hnone
        · have hkept := hkeeps _ (List.mem_append_right _ (List.mem_singleton_self _))
          obtain rfl : answer = .ok event := (Option.some.inj hanswer).symm
          exact ⟨(hkept Fields.ID (by simp)).trans hid, (hkept Fields.OUTCOME (by simp)).trans houtcome,
            (hkept Fields.REASON (by simp)).trans hreason⟩
      · obtain ⟨-, hevent⟩ := runs_pure.mp hrest
        obtain rfl : event = action.event session ts outcome reason := by simpa using hevent
        exact ⟨hid, houtcome, hreason⟩
    · obtain ⟨-, he⟩ := runs_ofExcept.mp hrest
      cases he
  · cases he
  · cases hnone

-- The section around a body: its own calls, and what of the body has run.
def Numbered {α : Type} (body : Option Nat → Tool α) (trace : Trace) (result : Option (Except JsError α)) : Prop :=
  ∃ signerSeq before inner after ended, trace = before ++ (inner ++ after) ∧ Runs (body signerSeq) inner ended ∧
    Inward before ∧ Inward after ∧ (result = ended ∨ result = none)

theorem inward_nil : Inward [] := ⟨rfl, rfl, rfl, rfl⟩

theorem inward_ask {c : SessionCall} {result : Option (Except JsError c.Answer)} (h : Runs (ask c) trace result)
    (hc : c.Inner) : Inward trace := inward_of_inner ((only_ask hc).runs h)

-- A body that has run to its end uses its number up, unless it failed.
theorem runs_advancing {α : Type} {body : Tool α} {next : Nat} {result : Option (Except JsError α)}
    (h : Runs (do let done ← body; ask (SessionCall.advance next); return done) trace result) :
    ∃ inner after ended, trace = inner ++ after ∧ Runs body inner ended ∧ Inward after ∧
      (result = ended ∨ result = none) := by
  rcases runs_bind.mp h with ⟨done, inner, after, hbody, hafter, rfl⟩ | ⟨e, hbody, rfl⟩ | ⟨hbody, rfl⟩
  · rcases runs_bind.mp hafter with ⟨_, first, rest, hadvance, hreturn, rfl⟩ | ⟨e, hadvance, rfl⟩ | ⟨hadvance, rfl⟩
    · obtain ⟨rfl, rfl⟩ := runs_pure.mp hreturn
      rw [List.append_nil]
      exact ⟨inner, first, some (.ok done), rfl, hbody, inward_ask hadvance trivial, Or.inl rfl⟩
    · rcases runs_ask.mp hadvance with ⟨-, hnone⟩ | ⟨x, -, hx⟩
      · cases hnone
      · cases hx
    · exact ⟨inner, after, some (.ok done), rfl, hbody, inward_ask hadvance trivial, Or.inr rfl⟩
  · exact ⟨trace, [], some (.error e), by simp, hbody, inward_nil, Or.inl rfl⟩
  · exact ⟨trace, [], none, by simp, hbody, inward_nil, Or.inl rfl⟩

theorem runs_numbering {α : Type} {body : Option Nat → Tool α} {result : Option (Except JsError α)}
    (h : Runs (numbering session body) trace result) : (Inward trace ∧ result = none) ∨ Numbered body trace result := by
  unfold numbering at h
  split at h
  · exact Or.inr ⟨none, [], trace, [], result, by simp, h, inward_nil, inward_nil, Or.inl rfl⟩
  · rcases runs_bind.mp h with ⟨n, entering, rest, hentering, hrest, rfl⟩ | ⟨e, he, -⟩ | ⟨hentering, rfl⟩
    · have hentered := inward_ask hentering trivial
      rcases runs_andFinally hrest with ⟨hbody, rfl⟩ | ⟨settled, first, last, ended, hbody, hleave, rfl, rfl⟩
      · obtain ⟨inner, after, ended, rfl, hinner, hafter, -⟩ := runs_advancing hbody
        exact Or.inr ⟨some n, entering, inner, after, ended, rfl, hinner, hentered, hafter, Or.inr rfl⟩
      · obtain ⟨inner, after, done, rfl, hinner, hafter, hdone⟩ := runs_advancing hbody
        have hleft := inward_ask hleave trivial
        have hsettled : some settled = done := hdone.resolve_right (by simp)
        refine Or.inr ⟨some n, entering, inner, after ++ last, done, by simp, hinner, hentered, ?_, ?_⟩
        · exact ⟨by simp [hafter.attempts, hleft.attempts], by simp [hafter.outcomes, hleft.outcomes],
            by simp [hafter.handlings, hleft.handlings], by simp [hafter.verdicts, hleft.verdicts]⟩
        · rcases runs_ask.mp hleave with ⟨-, rfl⟩ | ⟨x, -, rfl⟩
          · exact Or.inr rfl
          · exact Or.inl hsettled
    · rcases runs_ask.mp he with ⟨-, hnone⟩ | ⟨x, -, hx⟩
      · cases hnone
      · cases hx
    · exact Or.inl ⟨inward_ask hentering trivial, rfl⟩

-- An event of the operation could not be put together.
def BuildFails (session : AmcpSession) (action : AuditedAction) (outcome : JsString) (reason : Option JsString)
    (trace : Trace) : Prop :=
  ∃ signerSeq steps e, Runs (build session action outcome signerSeq reason) steps (some (.error e)) ∧
    ∀ exchange ∈ steps, exchange ∈ trace

-- What emitting one outcome asks for: the outcome is handed over once, unless it could
-- not be put together.
structure Emits (session : AmcpSession) (action : AuditedAction) (outcome : JsString) (reason : Option JsString)
    (trace : Trace) (result : Option (Except JsError Unit)) : Prop where
  attempts : attempts trace = []
  handlings : handlings trace = []
  verdicts : verdicts trace = []
  outcomes : (outcomes trace = [] ∧ (result = none ∨ BuildFails session action outcome reason trace)) ∨
    ∃ event, outcomes trace = [event] ∧ Built action outcome reason event

theorem runs_emitOutcome {outcome : JsString} {reason : Option JsString} {result : Option (Except JsError Unit)}
    (hkeeps : SignerKeeps trace) (h : Runs (emitOutcome session action outcome reason) trace result) :
    Emits session action outcome reason trace result := by
  unfold emitOutcome at h
  rcases runs_numbering h with ⟨hinward, rfl⟩ | ⟨n, before, inner, after, ended, rfl, hinner, hbefore, hafter, hended⟩
  · exact ⟨hinward.attempts, hinward.handlings, hinward.verdicts, Or.inl ⟨hinward.outcomes, Or.inl rfl⟩⟩
  · have hkept := hkeeps.of_append.2.of_append.1
    have hpart : ∀ exchange ∈ inner, exchange ∈ before ++ (inner ++ after) := fun exchange he =>
      List.mem_append_right _ (List.mem_append_left _ he)
    suffices hparts : Emits session action outcome reason inner ended by
      refine ⟨by simp [hbefore.attempts, hafter.attempts, hparts.attempts],
        by simp [hbefore.handlings, hafter.handlings, hparts.handlings],
        by simp [hbefore.verdicts, hafter.verdicts, hparts.verdicts], ?_⟩
      simp only [outcomes_append, hbefore.outcomes, hafter.outcomes, List.nil_append, List.append_nil]
      refine hparts.outcomes.imp (fun hnone => ⟨hnone.1, ?_⟩) id
      rcases hnone.2 with hunended | ⟨signerSeq, steps, e, hbuild, hsub⟩
      · exact Or.inl (hended.elim (fun h => h.trans hunended) id)
      · exact Or.inr ⟨signerSeq, steps, e, hbuild, fun exchange he => hpart exchange (hsub exchange he)⟩
    rcases runs_bind.mp hinner with ⟨event, first, rest, hbuild, hsend, rfl⟩ | ⟨e, hbuild, rfl⟩ | ⟨hbuild, rfl⟩
    · have hbuilt := built_of_runs hkept.of_append.1 hbuild
      have hfirst := inward_build hbuild
      have hrest : attempts rest = [] ∧ handlings rest = [] ∧ verdicts rest = [] ∧ outcomes rest = [event] := by
        rcases runs_askOk.mp hsend with ⟨rfl, -⟩ | ⟨x, rfl, -⟩ <;> exact ⟨rfl, rfl, rfl, rfl⟩
      exact ⟨by simp [hfirst.attempts, hrest.1], by simp [hfirst.handlings, hrest.2.1],
        by simp [hfirst.verdicts, hrest.2.2.1], Or.inr ⟨event, by simp [hfirst.outcomes, hrest.2.2.2], hbuilt⟩⟩
    · have hfirst := inward_build hbuild
      exact ⟨hfirst.attempts, hfirst.handlings, hfirst.verdicts,
        Or.inl ⟨hfirst.outcomes, Or.inr ⟨n, inner, e, hbuild, fun exchange he => he⟩⟩⟩
    · have hfirst := inward_build hbuild
      exact ⟨hfirst.attempts, hfirst.handlings, hfirst.verdicts, Or.inl ⟨hfirst.outcomes, Or.inl rfl⟩⟩

-- What the session holds of the transport's answer.
def Sent.Reports (sent : Sent) (answer : AttemptAnswer) : Prop :=
  (∃ response, answer = some (.ok response) ∧ sent.response = response ∧ sent.fault = none) ∨
    ∃ fault, answer = some (.error fault) ∧ sent.fault = some fault

-- How the sending of an attempt goes on once the transport has answered: only misuse is thrown on.
structure SendEnds (attempt : Json) (answer : AttemptAnswer) (result : Option (Except JsError Sent)) : Prop where
  sent : ∀ sent, result = some (.ok sent) → sent.attempt = attempt ∧ sent.Reports answer
  misuse : ∀ e, result = some (.error e) → ∃ message, answer = some (.error (.usageError message))

-- What sending the attempt asks for: it is handed over once, unless it could not be put together.
structure Sends (action : AuditedAction) (trace : Trace) (result : Option (Except JsError Sent)) : Prop where
  outcomes : outcomes trace = []
  handlings : handlings trace = []
  verdicts : verdicts trace = []
  attempts : (attempts trace = [] ∧ ∀ sent, result ≠ some (.ok sent)) ∨
    ∃ event answer, attempts trace = [(event, answer)] ∧ Built action Outcome.ATTEMPTED none event ∧
      SendEnds event answer result

theorem runs_asked {event : Json} {result : Option (Except JsError Sent)}
    (h : Runs (do
      let answer : Except JsError (Option Json) ← ask (SessionCall.sendAttempt event)
      match answer with
      | .ok response => return (⟨event, response, none⟩ : Sent)
      | .error (.usageError message) => ofExcept (.error (.usageError message))
      | .error fault => return ⟨event, some unavailableResponse, some fault⟩) trace result) :
    ∃ answer, trace = [⟨.sendAttempt event, answer⟩] ∧ SendEnds event answer result := by
  rcases runs_bind.mp h with ⟨answer, asked, last, hask, hlast, rfl⟩ | ⟨e, hask, -⟩ | ⟨hask, rfl⟩
  · rcases runs_ask.mp hask with ⟨-, hnone⟩ | ⟨x, rfl, hx⟩
    · cases hnone
    · obtain rfl : answer = x := by simpa using hx
      refine ⟨some answer, ?_⟩
      cases answer with
      | ok response =>
          obtain ⟨rfl, rfl⟩ := runs_pure.mp hlast
          refine ⟨rfl, fun sent hsent => ?_, by simp⟩
          obtain rfl := Except.ok.inj (Option.some.inj hsent)
          exact ⟨rfl, Or.inl ⟨response, rfl, rfl, rfl⟩⟩
      | error fault =>
          cases fault with
          | usageError message =>
              obtain ⟨rfl, rfl⟩ := runs_ofExcept.mp hlast
              exact ⟨rfl, by simp, fun e _ => ⟨message, rfl⟩⟩
          | _ =>
              obtain ⟨rfl, rfl⟩ := runs_pure.mp hlast
              refine ⟨rfl, fun sent hsent => ?_, by simp⟩
              obtain rfl := Except.ok.inj (Option.some.inj hsent)
              exact ⟨rfl, Or.inr ⟨_, rfl, rfl⟩⟩
  · rcases runs_ask.mp hask with ⟨-, hnone⟩ | ⟨x, -, hx⟩
    · cases hnone
    · cases hx
  · rcases runs_ask.mp hask with ⟨rfl, -⟩ | ⟨x, -, hx⟩
    · exact ⟨none, rfl, by simp, by simp⟩
    · cases hx

theorem runs_sendNumbered {result : Option (Except JsError Sent)} (hkeeps : SignerKeeps trace)
    (h : Runs (sendNumbered session action) trace result) : Sends action trace result := by
  unfold sendNumbered at h
  rcases runs_numbering h with ⟨hinward, rfl⟩ | ⟨n, before, inner, after, ended, rfl, hinner, hbefore, hafter, hended⟩
  · exact ⟨hinward.outcomes, hinward.handlings, hinward.verdicts, Or.inl ⟨hinward.attempts, by simp⟩⟩
  · have hkept := hkeeps.of_append.2.of_append.1
    suffices hparts : Sends action inner ended by
      refine ⟨by simp [hbefore.outcomes, hafter.outcomes, hparts.outcomes],
        by simp [hbefore.handlings, hafter.handlings, hparts.handlings],
        by simp [hbefore.verdicts, hafter.verdicts, hparts.verdicts], ?_⟩
      simp only [attempts_append, hbefore.attempts, hafter.attempts, List.nil_append, List.append_nil]
      rcases hended with rfl | rfl
      · exact hparts.attempts
      · refine hparts.attempts.imp (fun hnone => ⟨hnone.1, by simp⟩) ?_
        rintro ⟨event, answer, hattempts, hbuilt, -⟩
        exact ⟨event, answer, hattempts, hbuilt, by simp, by simp⟩
    rcases runs_bind.mp hinner with ⟨event, first, rest, hbuild, hsend, rfl⟩ | ⟨e, hbuild, rfl⟩ | ⟨hbuild, rfl⟩
    · have hbuilt := built_of_runs hkept.of_append.1 hbuild
      have hfirst := inward_build hbuild
      obtain ⟨answer, rfl, hanswered⟩ := runs_asked hsend
      have hasked : attempts [⟨SessionCall.sendAttempt event, answer⟩] = [(event, answer)] ∧
          outcomes [⟨SessionCall.sendAttempt event, answer⟩] = [] ∧
          handlings [⟨SessionCall.sendAttempt event, answer⟩] = [] ∧
          verdicts [⟨SessionCall.sendAttempt event, answer⟩] = [] := ⟨rfl, rfl, rfl, rfl⟩
      exact ⟨by simp [hfirst.outcomes, hasked.2.1], by simp [hfirst.handlings, hasked.2.2.1],
        by simp [hfirst.verdicts, hasked.2.2.2],
        Or.inr ⟨event, answer, by simp [hfirst.attempts, hasked.1], hbuilt, hanswered⟩⟩
    · have hfirst := inward_build hbuild
      exact ⟨hfirst.outcomes, hfirst.handlings, hfirst.verdicts, Or.inl ⟨hfirst.attempts, by simp⟩⟩
    · have hfirst := inward_build hbuild
      exact ⟨hfirst.outcomes, hfirst.handlings, hfirst.verdicts, Or.inl ⟨hfirst.attempts, by simp⟩⟩

end

end AuditableMcp
