import AuditableMcp.Reference.Sessions

-- Audit before act: what has been cleared when the handler runs, and what is reported after it.
namespace AuditableMcp

open Program

-- What a handler had marked by the time its action was disposed of, which it may have
-- done itself.
def HandlerRun.marks (run : HandlerRun) : List Move := run.moves.takeWhile fun move => move ≠ .dispose

def HandlerRun.succeeds (run : HandlerRun) : Bool :=
  .failed ∉ run.marks ∧ if .dispose ∈ run.moves then .succeeded ∈ run.marks else run.ending.isOk = true

def HandlerRun.outcome (run : HandlerRun) : JsString := if run.succeeds then Outcome.SUCCESS else Outcome.FAILED

def Move.mark (action : AuditedAction) : Move → AuditedAction
  | .succeeded => action.succeeded
  | .failed => action.failed
  | .dispose => action

-- What marks make of an outcome.
def markOf (moves : List Move) : Option Marked :=
  if .failed ∈ moves then some .failed else if .succeeded ∈ moves then some .success else none

-- The operation was cleared before its handler ran: accepted, under a countersignature
-- that holds, with the hash of the attempt as it was sent.
structure ClearedBefore (P : Primitives) (session : AmcpSession) (before : Trace) (attempt accept : Json) : Prop where
  attempts : attempts before = [(attempt, some (.ok (some accept)))]
  outcomes : outcomes before = []
  handlings : handlings before = []
  accepted : IsAccept accept
  countersigned : session.requireCountersign = true → (accept.get Fields.HOST_SIGNATURE).isSome = true
  verified : (accept.get Fields.HOST_SIGNATURE).isSome = true → session.countersignatureVerifier = true →
    ∃ payload, countersignaturePayload P (accept.get Fields.SEQ) (accept.get Fields.HOST_TS) (accept.get Fields.LOG_ID)
        (accept.get Fields.PREVIOUS_HASH) (accept.get Fields.RECORD_HASH) = .ok payload ∧
      (⟨.verify (accept.get Fields.HOST_KEY_ID) (accept.get Fields.HOST_SIGNATURE) payload, some (.ok .valid)⟩ :
        Exchange SessionCall.Answer) ∈ before
  hash : session.signer.isSome = true ∨ session.requireCountersign = true →
    ∃ expected, computeRecordHash P (some attempt) (accept.get Fields.SEQ) (accept.get Fields.HOST_TS)
        (accept.get Fields.PREVIOUS_HASH) = .ok expected ∧ accept.get Fields.RECORD_HASH = some (.str expected)

-- What is reported once the handler has been called: nothing before it is done, and then
-- one outcome of the attempt, unless it could not be put together.
structure ReportedAfter (session : AmcpSession) (after : Trace) (attempt : Json) (run : Option HandlerRun)
    (result : Option (Except JsError Json)) : Prop where
  attempts : attempts after = []
  handlings : handlings after = []
  running : run = none → after = [] ∧ result = none
  outcomes : ∀ done, run = some done →
    (outcomes after = [] ∧ (result = none ∨ ∃ action : AuditedAction, attempt.get Fields.ID = some (.str action.id) ∧
      BuildFails session action done.outcome none after)) ∨
    ∃ outcome, outcomes after = [outcome] ∧ outcome.get Fields.ID = attempt.get Fields.ID ∧
      outcome.get Fields.OUTCOME = some (.str done.outcome)

section

variable {P : Primitives} {session : AmcpSession} {spec : AuditSpec} {action : AuditedAction} {trace : Trace}

theorem foldl_mark (start : Option Marked) (moves : List Move) :
    moves.foldl Move.mark { action with outcome := start } =
      { action with outcome := if .failed ∈ moves then some .failed
          else if start = none ∧ .succeeded ∈ moves then some .success else start } := by
  induction moves generalizing start with
  | nil => simp
  | cons move rest ih =>
      cases move with
      | succeeded =>
          cases start with
          | none =>
              have hmark : Move.mark { action with outcome := none } .succeeded = { action with outcome := some .success } := rfl
              rw [List.foldl_cons, hmark, ih]
              simp
          | some marked =>
              have hmark : Move.mark { action with outcome := some marked } .succeeded =
                  { action with outcome := some marked } := rfl
              rw [List.foldl_cons, hmark, ih]
              simp
      | failed =>
          have hmark : Move.mark { action with outcome := start } .failed = { action with outcome := some .failed } := rfl
          rw [List.foldl_cons, hmark, ih]
          simp
      | dispose =>
          have hmark : Move.mark { action with outcome := start } .dispose = { action with outcome := start } := rfl
          rw [List.foldl_cons, hmark, ih]
          simp

theorem marked_fresh (hfresh : Fresh action) (moves : List Move) :
    moves.foldl Move.mark action = { action with outcome := markOf moves } := by
  have hstart : action = { action with outcome := none } := by
    rw [← hfresh.unmarked]
  rw [hstart, foldl_mark]
  simp [markOf]

-- Marks alone ask for nothing.
theorem makeMoves_marks (marks rest : List Move) (hmarks : .dispose ∉ marks) :
    makeMoves session action (marks ++ rest) = makeMoves session (marks.foldl Move.mark action) rest := by
  induction marks generalizing action with
  | nil => rfl
  | cons move marks ih =>
      rw [List.mem_cons, not_or] at hmarks
      cases move with
      | succeeded => exact ih hmarks.2
      | failed => exact ih hmarks.2
      | dispose => exact absurd rfl hmarks.1

-- A finished action stays so, and disposing of it again asks for nothing.
theorem makeMoves_finished (moves : List Move) (h : action.finished = true) :
    ∃ later : AuditedAction, makeMoves session action moves = pure later ∧ later.finished = true := by
  induction moves generalizing action with
  | nil => exact ⟨action, rfl, h⟩
  | cons move rest ih =>
      cases move with
      | succeeded =>
          apply ih
          unfold AuditedAction.succeeded
          split
          · exact h
          · exact h
      | failed => exact ih h
      | dispose =>
          obtain ⟨later, hlater, hfinished⟩ := ih h
          refine ⟨later, ?_, hfinished⟩
          show (asyncDispose session action >>= fun action => makeMoves session action rest) = _
          rw [asyncDispose, if_pos h]
          exact hlater

def AuditedAction.terminal (action : AuditedAction) : JsString :=
  if action.outcome = some .success then Outcome.SUCCESS else Outcome.FAILED

theorem runs_asyncDispose (hopen : action.finished = false) {result : Option (Except JsError AuditedAction)}
    (h : Runs (asyncDispose session action) trace result) :
    ∃ ended, Runs (emitOutcome session action action.terminal none) trace ended ∧
      result = ended.map fun _ => .ok { action with finished := true } := by
  rw [asyncDispose, if_neg (by simp [hopen])] at h
  rcases runs_bind.mp h with ⟨settled, emission, rest, hsettle, hreturn, rfl⟩ | ⟨e, hsettle, -⟩ | ⟨hsettle, rfl⟩
  · obtain ⟨rfl, rfl⟩ := runs_pure.mp hreturn
    rcases runs_settle.mp hsettle with ⟨other, hemit, -⟩ | ⟨-, hnone⟩
    · rw [List.append_nil]
      exact ⟨some other, hemit, rfl⟩
    · cases hnone
  · rcases runs_settle.mp hsettle with ⟨other, -, hother⟩ | ⟨-, hnone⟩
    · cases hother
    · cases hnone
  · rcases runs_settle.mp hsettle with ⟨other, -, hother⟩ | ⟨hemit, -⟩
    · cases hother
    · exact ⟨none, hemit, rfl⟩

-- What disposing of an open action emits, where nothing is asked after it.
theorem runs_disposing {α : Type} {next : AuditedAction → Tool α} (hopen : action.finished = false)
    (hquiet : ∀ later : AuditedAction, later.finished = true → ∃ x, next later = ofExcept x)
    (hkeeps : SignerKeeps trace) {result : Option (Except JsError α)}
    (h : Runs (asyncDispose session action >>= next) trace result) :
    ∃ ended, Emits session action action.terminal none trace ended ∧ (ended = none → result = none) := by
  rcases runs_bind.mp h with ⟨later, first, rest, hdispose, hnext, rfl⟩ | ⟨e, hdispose, rfl⟩ | ⟨hdispose, rfl⟩
  · obtain ⟨ended, hemit, hlater⟩ := runs_asyncDispose hopen hdispose
    cases ended with
    | none => cases hlater
    | some settled =>
        obtain rfl : later = { action with finished := true } := by simpa using hlater
        obtain ⟨x, hx⟩ := hquiet { action with finished := true } rfl
        rw [hx] at hnext
        obtain ⟨rfl, rfl⟩ := runs_ofExcept.mp hnext
        rw [List.append_nil] at hkeeps ⊢
        exact ⟨some settled, runs_emitOutcome hkeeps hemit, by simp⟩
  · obtain ⟨ended, -, hlater⟩ := runs_asyncDispose hopen hdispose
    cases ended with
    | none => cases hlater
    | some settled => cases hlater
  · obtain ⟨ended, hemit, -⟩ := runs_asyncDispose hopen hdispose
    exact ⟨ended, runs_emitOutcome hkeeps hemit, fun _ => rfl⟩

-- Marks do not show in what is emitted.
theorem emits_marked {marked : Option Marked} {outcome : JsString} {result : Option (Except JsError Unit)}
    (h : Emits session { action with outcome := marked } outcome none trace result) :
    Emits session action outcome none trace result := by
  refine ⟨h.attempts, h.handlings, h.verdicts, ?_⟩
  rcases h.outcomes with ⟨hnone, hwhy⟩ | ⟨event, hevent, hbuilt⟩
  · exact Or.inl ⟨hnone, hwhy⟩
  · exact Or.inr ⟨event, hevent, hbuilt.id, hbuilt.outcome, hbuilt.reason⟩

theorem terminal_marked (moves : List Move) (hmarks : .failed ∉ moves) :
    AuditedAction.terminal { action with outcome := markOf moves } =
      if .succeeded ∈ moves then Outcome.SUCCESS else Outcome.FAILED := by
  unfold AuditedAction.terminal markOf
  rw [if_neg hmarks]
  split <;> simp_all

-- What follows the handler's last move, and what follows its call.
def endHandler (session : AmcpSession) (ending : Except JsError Json) (action : AuditedAction) : Tool Json :=
  match ending with
  | .ok result => do
      let _ ← asyncDispose session action.succeeded
      return result
  | .error e => do
      let _ ← asyncDispose session action.failed
      Program.ofExcept (.error e)

def afterHandler (session : AmcpSession) (action : AuditedAction) (run : HandlerRun) : Tool Json := do
  let action ← makeMoves session action run.moves
  endHandler session run.ending action

theorem withAudit_eq : withAudit P session spec = (do
    let action ← AmcpSession.action P session spec
    let run : HandlerRun ← Program.ask (SessionCall.handler (action.accept.getD .null))
    afterHandler session action run) := rfl

theorem succeeded_finished (h : action.finished = true) : action.succeeded.finished = true := by
  unfold AuditedAction.succeeded
  split
  · exact h
  · exact h

-- The end of the handler changes nothing for an action it has disposed of.
theorem ending_quiet (ending : Except JsError Json) (moves : List Move) (later : AuditedAction)
    (hfinished : later.finished = true) :
    ∃ x, (makeMoves session later moves >>= endHandler session ending) = ofExcept x := by
  obtain ⟨last, hlast, hdone⟩ := @makeMoves_finished session later moves hfinished
  refine ⟨ending, ?_⟩
  rw [hlast]
  show endHandler session ending last = ofExcept ending
  unfold endHandler
  cases ending with
  | ok result =>
      show (asyncDispose session last.succeeded >>= fun _ => pure result) = _
      rw [asyncDispose, if_pos (succeeded_finished hdone)]
      rfl
  | error e =>
      show (asyncDispose session last.failed >>= fun _ => ofExcept (.error e)) = _
      rw [asyncDispose, if_pos (show last.failed.finished = true from hdone)]
      rfl

theorem moves_split (moves : List Move) (h : .dispose ∈ moves) :
    ∃ rest, moves = (moves.takeWhile fun move => move ≠ .dispose) ++ .dispose :: rest := by
  induction moves with
  | nil => cases h
  | cons move rest ih =>
      by_cases hmove : move = .dispose
      · exact ⟨rest, by simp [hmove]⟩
      · obtain ⟨later, hlater⟩ := ih ((List.mem_cons.mp h).resolve_left (Ne.symm hmove))
        refine ⟨later, ?_⟩
        simp only [List.takeWhile_cons, hmove, ne_eq, not_false_eq_true, decide_true, if_true, List.cons_append]
        exact congrArg (move :: ·) hlater

theorem undisposed_marks (run : HandlerRun) : .dispose ∉ run.marks := by
  intro hmem
  simpa using List.mem_takeWhile_imp hmem

theorem runs_afterHandler (hfresh : Fresh action) {run : HandlerRun} (hkeeps : SignerKeeps trace)
    {result : Option (Except JsError Json)} (h : Runs (afterHandler session action run) trace result) :
    ∃ ended, Emits session action run.outcome none trace ended ∧ (ended = none → result = none) := by
  unfold afterHandler at h
  have hmarked := marked_fresh hfresh run.marks
  by_cases hdispose : .dispose ∈ run.moves
  · obtain ⟨rest, hsplit⟩ : ∃ rest, run.moves = run.marks ++ .dispose :: rest := moves_split run.moves hdispose
    have hmoves : makeMoves session action run.moves =
        (asyncDispose session { action with outcome := markOf run.marks } >>= fun action => makeMoves session action rest) := by
      rw [hsplit, makeMoves_marks _ _ (undisposed_marks run), hmarked]
      rfl
    rw [hmoves, Program.bind_assoc] at h
    have hquiet : ∀ later : AuditedAction, later.finished = true →
        ∃ x, (makeMoves session later rest >>= endHandler session run.ending) = ofExcept x :=
      ending_quiet run.ending rest
    have hopen : AuditedAction.finished { action with outcome := markOf run.marks } = false := hfresh.unfinished
    obtain ⟨ended, hemits, hended⟩ := runs_disposing hopen hquiet hkeeps h
    refine ⟨ended, ?_, hended⟩
    have hterminal : AuditedAction.terminal { action with outcome := markOf run.marks } = run.outcome := by
      unfold AuditedAction.terminal HandlerRun.outcome HandlerRun.succeeds markOf
      by_cases hfailed : .failed ∈ run.marks <;> by_cases hsucceeded : .succeeded ∈ run.marks <;>
        simp [hfailed, hsucceeded, hdispose]
    rw [hterminal] at hemits
    exact emits_marked hemits
  · have hmarks : run.marks = run.moves := by
      refine List.takeWhile_eq_self_iff.mpr fun move hmove => ?_
      rw [decide_eq_true_eq]
      rintro rfl
      exact hdispose hmove
    have hmoves : makeMoves session action run.moves = pure { action with outcome := markOf run.moves } := by
      have hall := @makeMoves_marks session action run.moves [] hdispose
      rw [List.append_nil, ← hmarks, hmarked, hmarks] at hall
      exact hall
    rw [hmoves] at h
    have h : Runs (endHandler session run.ending { action with outcome := markOf run.moves }) trace result := h
    cases hending : run.ending with
    | ok value =>
        rw [hending] at h
        have hsucceeded : AuditedAction.succeeded { action with outcome := markOf run.moves } =
            { action with outcome := if .failed ∈ run.moves then some .failed else some .success } := by
          unfold AuditedAction.succeeded markOf
          by_cases hfailed : .failed ∈ run.moves <;> by_cases hmark : .succeeded ∈ run.moves <;> simp [hfailed, hmark]
        have hdisposing : Runs (asyncDispose session (AuditedAction.succeeded { action with outcome := markOf run.moves }) >>=
            fun _ => pure value) trace result := h
        rw [hsucceeded] at hdisposing
        obtain ⟨ended, hemits, hended⟩ := runs_disposing (show AuditedAction.finished { action with
          outcome := if .failed ∈ run.moves then some .failed else some .success } = false from hfresh.unfinished)
          (fun later _ => ⟨.ok value, rfl⟩) hkeeps hdisposing
        refine ⟨ended, ?_, hended⟩
        have hterminal : AuditedAction.terminal { action with
            outcome := if .failed ∈ run.moves then some .failed else some .success } = run.outcome := by
          unfold AuditedAction.terminal HandlerRun.outcome HandlerRun.succeeds
          by_cases hfailed : .failed ∈ run.moves <;> simp [hfailed, hmarks, hdispose, hending, Except.isOk, Except.toBool]
        rw [hterminal] at hemits
        exact emits_marked hemits
    | error e =>
        rw [hending] at h
        have hdisposing : Runs (asyncDispose session { action with outcome := some .failed } >>=
            fun _ => ofExcept (.error e)) trace result := h
        obtain ⟨ended, hemits, hended⟩ := runs_disposing (show AuditedAction.finished { action with
          outcome := some .failed } = false from hfresh.unfinished) (fun later _ => ⟨.error e, rfl⟩) hkeeps hdisposing
        refine ⟨ended, ?_, hended⟩
        have hterminal : AuditedAction.terminal { action with outcome := some .failed } = run.outcome := by
          unfold AuditedAction.terminal HandlerRun.outcome HandlerRun.succeeds
          simp [hdispose, hending, Except.isOk, Except.toBool]
        rw [hterminal] at hemits
        exact emits_marked hemits

end

section

open Reference

def plainAccept : Json :=
  objectOf
    [(Fields.STATUS, some (.str Status.ACCEPT)), (Fields.SEQ, some (.num (.ofNat 0))),
     (Fields.RECORD_HASH, some (.str GENESIS_HASH)), (Fields.HOST_TS, some (.str NOON)),
     (Fields.PREVIOUS_HASH, some (.str GENESIS_HASH))]

def auditing (run : HandlerRun) : Trace × Except JsError Json :=
  (withAudit primitives checkingSession querySpec).runWith (worldOf plainAccept run)

-- A handler that marks its action, disposes of it and then throws.
def disposingRun : HandlerRun := ⟨[.succeeded, .dispose], .error (.error "too late")⟩

end

end AuditableMcp
