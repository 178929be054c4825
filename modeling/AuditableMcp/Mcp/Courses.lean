import AuditableMcp.Mcp.Wiring

-- Every step of the seam is a sequence of moves.
namespace AuditableMcp.Mcp

open Transport

section

variable {config : TransportConfig} {s : Transport} {call : Nat} {found : ToolCall} {token : JsString}

theorem modify_same (hcall : s.calls[call]? = some found) {change : ToolCall → ToolCall} (h : change found = found) :
    s.calls.modify call change = s.calls := by
  have hid : s.calls.modify call id = s.calls := List.modify_id ..
  exact (modify_congr hcall h).trans hid

theorem endRound_eq {requestId : RequestId} (hcall : s.calls[call]? = some found)
    (hopen : found.currentId = some requestId) (hbuffered : found.buffered ≠ []) :
    s.endRound call token = s.sendRound call found requestId token found.roundScheduled := by
  have hempty : found.buffered.isEmpty = false := by
    cases hb : found.buffered with
    | nil => exact absurd hb hbuffered
    | cons event rest => rfl
  unfold endRound sendRound
  simp only [hcall, hopen, hempty, Bool.false_eq_true, if_false]
  congr 1
  apply modify_congr hcall
  rfl

theorem endRound_idle (hcall : s.calls[call]? = some found) (hidle : found.currentId = none ∨ found.buffered = []) :
    s.endRound call token = s := by
  unfold endRound
  simp only [hcall]
  rcases hidle with hnone | hempty
  · rw [hnone]
  · cases hopen : found.currentId with
    | none => rfl
    | some requestId => simp [hempty]

theorem endRound_call (hcall : s.calls[call]? = some found) :
    ∃ after, (s.endRound call token).calls[call]? = some after ∧ after.finished = found.finished ∧
      after.answer = found.answer := by
  by_cases hidle : found.currentId = none ∨ found.buffered = []
  · rw [endRound_idle hcall hidle]
    exact ⟨found, hcall, rfl, rfl⟩
  · obtain ⟨hopen, hbuffered⟩ := not_or.mp hidle
    obtain ⟨requestId, hopen⟩ := Option.ne_none_iff_exists'.mp hopen
    rw [endRound_eq hcall hopen hbuffered]
    exact ⟨_, Heap.modify_self hcall, rfl, rfl⟩

theorem endRound_suspended (s : Transport) (call : Nat) (token : JsString) :
    (s.endRound call token).suspended = s.suspended := by
  unfold endRound
  repeat' split
  all_goals rfl

theorem endRound_moves (hcall : s.calls[call]? = some found) (hround : found.round = none) (hfresh : token ∉ s.minted)
    (htracked : Named s → s.tracked.get found.originalId = some call) : Moves config s (s.endRound call token) := by
  by_cases hidle : found.currentId = none ∨ found.buffered = []
  · rw [endRound_idle hcall hidle]
    exact .stay s
  · obtain ⟨hopen, hbuffered⟩ := not_or.mp hidle
    obtain ⟨requestId, hopen⟩ := Option.ne_none_iff_exists'.mp hopen
    rw [endRound_eq hcall hopen hbuffered]
    exact .single (.endsRound found.roundScheduled hcall hopen hround hbuffered hfresh htracked)

theorem roundTimer_moves (hwired : Wired s) (hanchored : Anchored s) (hcall : s.calls[call]? = some found)
    (hfresh : token ∉ s.minted) : Moves config s (s.roundTimer call found token) := by
  unfold roundTimer
  by_cases hends : (found.finished || found.cancelled) = true
  · rw [if_pos hends]
    rw [Bool.or_eq_true] at hends
    exact .single (.unschedules hcall (hends.elim Or.inl fun h => Or.inr (Or.inl h)))
  · rw [if_neg hends]
    simp only [Bool.or_eq_true, not_or, Bool.not_eq_true] at hends
    have hfired : (s.alter call fun found => { found with roundScheduled := false }).calls[call]? =
        some { found with roundScheduled := false } := Heap.modify_self hcall
    by_cases hidle : found.currentId = none ∨ found.buffered = []
    · rw [endRound_idle hfired hidle]
      exact .single (.unschedules hcall (Or.inr (Or.inr hidle)))
    · obtain ⟨hopen, hbuffered⟩ := not_or.mp hidle
      obtain ⟨requestId, hopen⟩ := Option.ne_none_iff_exists'.mp hopen
      have hround : found.round = none :=
        ((hwired.calls call found hcall).current hends.1 hends.2).mpr (by rw [hopen]; rfl)
      rw [endRound_eq hfired hopen hbuffered]
      have hsame : (s.alter call fun found => { found with roundScheduled := false }).sendRound call
          { found with roundScheduled := false } requestId token false = s.sendRound call found requestId token false := by
        unfold sendRound
        simp only [Transport.alter, List.modify_modify_eq]
        rfl
      rw [hsame]
      exact .single (.endsRound false hcall hopen hround hbuffered hfresh fun hnamed =>
        hanchored hnamed call found hcall (Or.inl hends))

theorem evictConcluded_moves (s : Transport) (call : Nat) : Moves config s (s.evictConcluded call) := by
  unfold evictConcluded
  split
  · exact .stay s
  · exact .single (.cancels call)

theorem evictions_moves (s : Transport) (entries : List (RequestId × Nat)) :
    Moves config s (entries.foldl (fun s entry => s.evictConcluded entry.2) s) := by
  induction entries generalizing s with
  | nil => exact .stay s
  | cons entry rest ih => exact (evictConcluded_moves s entry.2).trans (ih _)

theorem keepConcluded_moves {answer : JsonRpcFrame} (hcall : s.calls[call]? = some found)
    (hfinished : found.finished = true) (hanswer : found.answer = some answer) :
    Moves config s (s.keepConcluded call answer) := by
  unfold keepConcluded
  simp only [hcall]
  apply Moves.trans (.single (.holds (some answer) hcall fun held hheld => ⟨hfinished, hheld ▸ hanswer⟩))
  apply Moves.trans (.aside ?_) (evictions_moves _ _)
  exact ⟨rfl, rfl, rfl, rfl, rfl, rfl, fun _ h => h, [], (List.append_nil _).symm, by simp⟩

theorem release_moves (hcall : s.calls[call]? = some found) (hfinished : found.finished = true) (final : Bool) :
    Moves config s (s.release call final) := by
  by_cases htracked : s.tracked.get found.originalId = some call
  · exact .single (.releases final hcall htracked hfinished)
  · have hsame : s.release call final = s := by
      unfold Transport.release
      simp only [hcall]
      exact if_neg htracked
    rw [hsame]
    exact .stay s

theorem auditEvents_get (sessionId : Option JsString) (events : List ToolEvent) :
    (auditEvents sessionId events).get Fields.EVENTS = some (eventsJson events) := by
  have hapart : Fields.SESSION_ID ≠ Fields.EVENTS := by decide
  cases sessionId with
  | none => simp [auditEvents, eventsJson, Json.get, Json.lookup]
  | some text => simp [auditEvents, eventsJson, Json.get, Json.lookup, hapart]

theorem metaOf_withMember (members value : Members) :
    metaOf (some (.obj (withMember members META (.obj value)))) = value := by
  simp [metaOf, Json.get, lookup_withMember]

theorem roundFrame_carries (requestId : RequestId) (sessionId : Option JsString) (token : JsString)
    (events : List ToolEvent) : carriedEvents (roundFrame requestId sessionId token events) = some (eventsJson events) := by
  have hmeta : metaOf ((roundFrame requestId sessionId token events).result.map Json.obj) =
      [(EXTENSION_ID, auditEvents sessionId events)] := by
    have htype : RESULT_TYPE ≠ META := by decide
    have hstate : REQUEST_STATE ≠ META := by decide
    simp [metaOf, roundFrame, Json.get, Json.lookup, htype, hstate]
  unfold carriedEvents
  rw [hmeta]
  simp [Json.lookup, auditEvents_get]

theorem finalFrame_carries {requestId : RequestId} {answer : JsonRpcFrame} (hresult : answer.error.isSome = false)
    (hbuffered : found.buffered ≠ []) :
    carriedEvents (s.finalFrame found requestId answer) = some (eventsJson found.buffered) := by
  have hempty : found.buffered.isEmpty = false := by
    cases hb : found.buffered with
    | nil => exact absurd hb hbuffered
    | cons event rest => rfl
  unfold finalFrame carriedEvents
  simp only [hresult, hempty, Bool.or_self, Bool.false_eq_true, if_false, Option.map_some]
  rw [metaOf_withMember, lookup_withMember, if_pos rfl]
  exact auditEvents_get _ _

-- What is put on the open id is the handler's frame.
theorem finalFrame_same (s : Transport) (found : ToolCall) (requestId : RequestId) (answer : JsonRpcFrame) :
    SameAnswer answer (s.finalFrame found requestId answer) := by
  unfold finalFrame
  dsimp only
  split
  · exact ⟨rfl, rfl, fun _ _ => rfl⟩
  · refine ⟨rfl, rfl, fun name hname => ?_⟩
    rw [Option.getD_some, lookup_withMember, if_neg (Ne.symm hname)]

theorem conclude_moves (hcall : s.calls[call]? = some found) (hfinished : found.finished = true)
    (hround : found.round = none) (hopen : found.currentId.isSome = true) (hfresh : token ∉ s.minted)
    (htracked : Named s → s.tracked.get found.originalId = some call) {answer : JsonRpcFrame}
    (hanswer : found.answer = some answer) (inbound : Bool) : Moves config s (s.conclude call answer token inbound) := by
  unfold conclude
  simp only [hcall]
  split
  · obtain ⟨after, hafter, hends, hsame⟩ := @endRound_call s call found token hcall
    have hsuspended : s.suspended = (s.endRound call token).suspended := (endRound_suspended s call token).symm
    rw [hsuspended]
    exact (endRound_moves hcall hround hfresh htracked).trans
      (.single (.suspends answer inbound hafter (hends.trans hfinished) (hsame.trans hanswer)))
  · rename_i hwhole
    obtain ⟨requestId, hid⟩ := Option.isSome_iff_exists.mp hopen
    simp only [hid]
    have hcarries (hbuffered : found.buffered ≠ []) :
        carriedEvents (s.finalFrame found requestId answer) = some (eventsJson found.buffered) := by
      apply finalFrame_carries _ hbuffered
      cases hanswer : answer.error with
      | none => rfl
      | some error => simp [hanswer, hbuffered] at hwhole
    apply Moves.trans (.single (.concludes answer _ hcall hfinished hcarries hanswer (finalFrame_same s found requestId answer)))
    exact @release_moves config _ call { found with buffered := [] } (Heap.modify_self hcall) hfinished _

end

section

variable {config : TransportConfig} {s : Transport} {call : Nat} {found : ToolCall} {token : JsString} {frame : JsonRpcFrame}

theorem finish_moves (hwired : Wired s) (hcall : s.calls[call]? = some found) (hfinished : found.finished = false)
    (hcancelled : found.cancelled = false) (hfresh : token ∉ s.minted)
    (htracked : s.tracked.get found.originalId = some call) (answer : JsonRpcFrame) :
    Moves config s ((s.alter call fun found => concluding found answer).finish call answer token) := by
  have hconcluding : (s.alter call fun found => concluding found answer).calls[call]? = some (concluding found answer) :=
    Heap.modify_self hcall
  have hfirst : Move config s _ := .finishes answer hcall hfinished
  have hafter : ({ s.alter call fun found => abandoning (concluding found answer) with
      attempts := unanswered s.attempts found.nextAwaiting } : Transport).calls[call]? =
        some (abandoning (concluding found answer)) := Heap.modify_self hcall
  have hsame : ({ (s.alter call fun found => concluding found answer).alter call (fun found => abandoning found) with
      attempts := unanswered s.attempts found.nextAwaiting } : Transport) =
      { s.alter call fun found => abandoning (concluding found answer) with
        attempts := unanswered s.attempts found.nextAwaiting } := by
    simp only [Transport.alter, List.modify_modify_eq]
    rfl
  unfold finish
  simp only [hconcluding]
  change Moves config s (if found.round.isSome = true then
    ({ (s.alter call fun found => concluding found answer).alter call (fun found => abandoning found) with
      attempts := unanswered s.attempts found.nextAwaiting } : Transport).keepConcluded call answer
    else ({ (s.alter call fun found => concluding found answer).alter call (fun found => abandoning found) with
      attempts := unanswered s.attempts found.nextAwaiting } : Transport).conclude call answer token false)
  rw [hsame]
  apply (Moves.single hfirst).trans
  by_cases hround : found.round.isSome = true
  · rw [if_pos hround]
    exact keepConcluded_moves hafter rfl rfl
  · rw [if_neg hround]
    have hnone : found.round = none := by simpa using hround
    have hopen := ((hwired.calls call found hcall).current hfinished hcancelled).mp hnone
    exact conclude_moves hafter rfl hnone hopen hfresh (fun _ => htracked) rfl false

theorem answerLegacy_moves (hwired : Wired s) (hcall : s.calls[call]? = some found) (hfinished : found.finished = false)
    (hmodern : found.modern = false) (answer : JsonRpcFrame) (final : Bool) :
    Moves config s
      (((s.alter call fun found => concluding found answer).write (.final call answer [] answer)).release call final) := by
  obtain ⟨hbuffered, hnext, -⟩ := (hwired.calls call found hcall).legacy hmodern
  have hsame : ((s.alter call fun found => concluding found answer).write (.final call answer [] answer)) =
      ({ s.alter call fun found => abandoning (concluding found answer) with
        attempts := unanswered s.attempts found.nextAwaiting }.alter call fun found =>
          { found with buffered := [] }).write (.final call answer [] answer) := by
    have hattempts : unanswered s.attempts found.nextAwaiting = s.attempts := by rw [hnext]; rfl
    simp only [Transport.alter, Transport.write, List.modify_modify_eq, hattempts]
    congr 1
    apply modify_congr hcall
    simp [abandoning, concluding, hbuffered, hnext]
  have hafter : ({ s.alter call fun found => abandoning (concluding found answer) with
      attempts := unanswered s.attempts found.nextAwaiting } : Transport).calls[call]? =
        some (abandoning (concluding found answer)) := Heap.modify_self hcall
  have hleft : (abandoning (concluding found answer)).buffered = [] := by simp [abandoning, concluding, hbuffered]
  rw [hsame]
  apply (Moves.single (Move.finishes answer hcall hfinished)).trans
  have hconcludes := @Move.concludes config _ _ _ answer answer hafter rfl (fun hsome => absurd hleft hsome) rfl
    ⟨rfl, rfl, fun _ _ => rfl⟩
  rw [hleft] at hconcludes
  apply (Moves.single hconcludes).trans
  exact @release_moves config _ call { abandoning (concluding found answer) with buffered := [] }
    (Heap.modify_self hafter) rfl final

theorem passed_moves (s : Transport) (frame : JsonRpcFrame) : Moves config s (s.write (.passed frame)) :=
  .aside ⟨rfl, rfl, rfl, rfl, rfl, rfl, fun _ h => h, [.passed frame], rfl, by simp [Written.plain]⟩

theorem quiet_moves {s' : Transport} (hcalls : s'.calls = s.calls) (hattempts : s'.attempts = s.attempts)
    (hsessions : s'.sessions = s.sessions) (htracked : s'.tracked = s.tracked) (hrounds : s'.rounds = s.rounds)
    (hminted : s'.minted = s.minted) (hsuspended : s'.suspended = s.suspended) (hwritten : s'.written = s.written) :
    Moves config s s' :=
  .aside ⟨hcalls, hattempts, hsessions, htracked, hrounds, hminted, fun _ h => hsuspended ▸ h, [],
    by rw [hwritten, List.append_nil], by simp⟩

theorem outbound_moves (hwired : Wired s) (hfresh : token ∉ s.minted) (frame : JsonRpcFrame) :
    Moves config s (s.outbound config frame token) := by
  unfold outbound
  cases frame.id with
  | none => exact passed_moves s frame
  | some id =>
      dsimp only
      split
      · exact passed_moves s frame
      · split
        · exact passed_moves s _
        · split
          · exact quiet_moves rfl rfl rfl rfl rfl rfl rfl rfl
          · cases htracked : s.tracked.get id with
            | none => exact passed_moves s frame
            | some call =>
                obtain ⟨found, hcall, rfl, hlive⟩ := hwired.tracked id call htracked
                simp only [hcall]
                split
                · exact passed_moves s frame
                · rename_i hopen
                  have hfinished : found.finished = false := by
                    simp only [not_or, Bool.not_eq_true] at hopen
                    exact hopen.2
                  split
                  · exact finish_moves hwired hcall hfinished hlive hfresh htracked frame
                  · rename_i hlegacy
                    exact answerLegacy_moves hwired hcall hfinished (by simpa using hlegacy) frame _

-- What follows a round's end: the final frame that was held goes out, or a round is scheduled.
theorem proceed_moves (hwired : Wired s) (hanchored : Anchored s) (hfresh : token ∉ s.minted) {round : OpenRound}
    {state : JsString} (frame : JsonRpcFrame) (id : RequestId) (hopen : s.openRound state = some (call, round)) :
    Moves config ((s.resume call round id frame).reschedule call) ((s.resume call round id frame).proceed call token) := by
  obtain ⟨-, ⟨found, hcall, hround⟩, -⟩ := openRound_eq_some.mp hopen
  obtain ⟨accepting, heq⟩ := @resume_eq s call round found hcall id frame
  have hresumed : (s.resume call round id frame).calls[call]? =
      some { found with
        round := none, ids := found.ids.insert id, currentId := some id, accepted := accepting found.accepted } := by
    rw [heq]
    exact Heap.modify_self hcall
  unfold proceed
  simp only [hresumed]
  cases hheld : found.held with
  | none =>
      have hsame : (s.resume call round id frame).reschedule call =
          if (!found.finished && found.buffered.any ToolEvent.isAttempt) = true then
            (s.resume call round id frame).scheduleRound call
          else s.resume call round id frame := by
        unfold reschedule
        simp only [hresumed]
      rw [hsame]
      exact .stay _
  | some held =>
      obtain ⟨hfinished, hanswer⟩ := (hwired.calls call found hcall).held held hheld
      have hsame : (s.resume call round id frame).reschedule call = s.resume call round id frame := by
        unfold reschedule
        simp only [hresumed]
        simp [hfinished]
      rw [hsame]
      apply (Moves.single (Move.holds none hresumed (by simp))).trans
      have htaken : Moves config ((s.resume call round id frame).alter call fun found => { found with held := none })
          ((s.resume call round id frame).takeHeld call found) := quiet_moves rfl rfl rfl rfl rfl rfl rfl rfl
      have hminted : ((s.resume call round id frame).takeHeld call found).minted = s.minted := by rw [heq]; rfl
      refine htaken.trans (conclude_moves (s := (s.resume call round id frame).takeHeld call found)
        (Heap.modify_self hresumed) hfinished rfl rfl (hminted ▸ hfresh) (fun hnamed => ?_) hanswer true)
      have hresume : Named (s.resume call round id frame) := hnamed.of_modify rfl fun _ => rfl
      rw [heq] at hresume
      have htracked := hanchored (hresume.of_modify rfl fun _ => rfl) call found hcall
        (Or.inr (Or.inl (by rw [hround]; rfl)))
      rw [heq]
      exact htracked

theorem takeRetry_moves (hwired : Wired s) (hanchored : Anchored s) (hfresh : token ∉ s.minted) (frame : JsonRpcFrame) (id : RequestId)
    (state : JsString) : Moves config s (s.takeRetry frame id state token) := by
  unfold takeRetry
  cases hopen : s.openRound state with
  | none =>
      have hrounds := OrderedMap.delete_of_get_none (hwired.openRound_none.mp hopen)
      exact .aside ⟨rfl, rfl, rfl, rfl, hrounds, rfl, fun _ h => h, [.refusal (refusal id)], rfl, by simp [Written.plain]⟩
  | some entry =>
      obtain ⟨call, round⟩ := entry
      exact (Moves.single (Move.resumes id frame hopen)).trans (proceed_moves hwired hanchored hfresh frame id hopen)

theorem cancel_moves (s : Transport) (frame : JsonRpcFrame) : Moves config s (s.cancel frame) := by
  unfold Transport.cancel
  cases (RequestId.ofJson (frame.param REQUEST_ID)).bind s.servedUnder with
  | none => exact quiet_moves rfl rfl rfl rfl rfl rfl rfl rfl
  | some call =>
      dsimp only
      apply (Moves.single (Move.cancels call)).trans
      split
      · exact .stay _
      · split
        · exact .stay _
        · exact quiet_moves rfl rfl rfl rfl rfl rfl rfl rfl

theorem takeAnswer_moves (s : Transport) (frame : JsonRpcFrame) (name : JsString) :
    Moves config s (s.takeAnswer frame name) := by
  unfold takeAnswer
  cases s.pending.get name with
  | none => exact .stay s
  | some attempt =>
      dsimp only
      apply Moves.trans (.single (.settles (settle_progress s.attempts attempt _)))
      exact quiet_moves rfl rfl rfl rfl rfl rfl rfl rfl

theorem inbound_moves (hwired : Wired s) (hanchored : Anchored s) (hfresh : token ∉ s.minted) (frame : JsonRpcFrame) :
    Moves config s (s.inbound frame token) := by
  unfold inbound
  split
  · split
    · exact quiet_moves rfl rfl rfl rfl rfl rfl rfl rfl
    · split
      · split
        · exact takeRetry_moves hwired hanchored hfresh frame _ _
        · exact .single (.opens frame _)
      · exact quiet_moves rfl rfl rfl rfl rfl rfl rfl rfl
  · split
    · exact takeAnswer_moves s frame _
    · exact quiet_moves rfl rfl rfl rfl rfl rfl rfl rfl
  · split
    · exact cancel_moves s frame
    · exact quiet_moves rfl rfl rfl rfl rfl rfl rfl rfl
  · exact quiet_moves rfl rfl rfl rfl rfl rfl rfl rfl

-- Cancelling the first of the tracked calls leaves the others tracked.
theorem cancel_first {id : RequestId} {rest : List (RequestId × Nat)} (hwired : Wired s)
    (hentries : s.tracked.entries = (id, call) :: rest) :
    ((s.alter call fun found => { found with cancelled := true }).release call true).tracked.entries = rest := by
  have hget : s.tracked.get id = some call :=
    (OrderedMap.mem_entries_iff hwired.distinct id call).mp (hentries ▸ List.mem_cons_self ..)
  obtain ⟨found, hcall, hid, -⟩ := hwired.tracked id call hget
  have hkeys : id ∉ rest.map Prod.fst := by
    have hdistinct : (s.tracked.entries.map Prod.fst).Nodup := hwired.distinct
    rw [hentries, List.map_cons, List.nodup_cons] at hdistinct
    exact hdistinct.1
  rw [cancel_eq hcall (hid ▸ hget), hid]
  change (s.tracked.delete id).entries = rest
  unfold OrderedMap.delete
  rw [hentries]
  simp only [ne_eq, not_true_eq_false, decide_false, Bool.false_eq_true, not_false_eq_true, List.filter_cons_of_neg]
  apply List.filter_eq_self.mpr
  intro entry hentry
  simp only [decide_eq_true_eq]
  exact fun hsame => hkeys (hsame ▸ List.mem_map_of_mem hentry)

theorem releaseAll_moves (entries : List (RequestId × Nat)) (hwired : Wired s) (hentries : s.tracked.entries = entries) :
    Moves config s (entries.foldl (fun s entry =>
        (s.alter entry.2 fun found => { found with cancelled := true }).release entry.2 true) s) ∧
      (entries.foldl (fun s entry =>
        (s.alter entry.2 fun found => { found with cancelled := true }).release entry.2 true) s).tracked.entries = [] := by
  induction entries generalizing s with
  | nil => exact ⟨.stay s, hentries⟩
  | cons entry rest ih =>
      obtain ⟨id, call⟩ := entry
      obtain ⟨hmoves, hnone⟩ := ih (hwired.cancel call) (cancel_first hwired hentries)
      exact ⟨(Moves.single (.cancels call)).trans hmoves, hnone⟩

theorem connectionLost_moves (hwired : Wired s) : Moves config s s.connectionLost := by
  obtain ⟨hmoves, hnone⟩ := @releaseAll_moves config s s.tracked.entries hwired rfl
  unfold connectionLost
  refine hmoves.trans ?_
  apply Moves.trans (.single (.dropsAll hnone))
  apply Moves.trans (.single (.settles (unanswered_progress _ _)))
  exact quiet_moves rfl rfl rfl rfl rfl rfl rfl rfl

end

section

variable {config : TransportConfig} {s s' : Transport} {action : TransportAction} {actions : List TransportAction}

theorem abandon_progress (attempts : List Attempt) (attempt : Nat) :
    Progress attempts (attempts.modify attempt fun found => { found with abandoned := true }) :=
  modify_progress fun _ => ⟨rfl, rfl, fun _ h => h⟩

theorem sendAttempt_moves {call : Nat} {found : ToolCall} {event : ToolEvent} (hcall : s.calls[call]? = some found)
    (hnegotiated : found.negotiated = true) (hattempt : event.isAttempt = true) :
    Moves config s ((s.note call event).sendAttempt call found event) := by
  by_cases hlost : (found.finished || found.cancelled) = true
  · have hsame : (s.note call event).sendAttempt call found event = s.note call event := if_pos hlost
    rw [hsame]
    rw [Bool.or_eq_true] at hlost
    exact .single (.notes event hcall fun _ => hlost)
  · have hopen : found.finished = false ∧ found.cancelled = false := by simpa using hlost
    by_cases hmodern : found.modern = true
    · exact .single (.waits hcall hnegotiated hattempt hmodern hopen.1 hopen.2)
    · have hlegacy : found.modern = false := by simpa using hmodern
      have hnoted : (s.note call event).calls[call]? =
          some { found with emitted := if found.finished then found.emitted else found.emitted ++ [event] } :=
        Heap.modify_self hcall
      unfold sendAttempt
      rw [if_neg hlost]
      simp only [hlegacy, Bool.false_eq_true, if_false]
      apply (Moves.single (.notes event hcall fun h => absurd h hmodern)).trans
      apply Moves.trans (.single (.asks event hnoted hlegacy))
      apply Moves.trans (.single (.tells (s := { s.note call event with
        attempts := (s.note call event).attempts ++ [⟨call, event, none, false⟩] }) event _ hnoted hnegotiated))
      exact quiet_moves rfl rfl rfl rfl rfl rfl rfl rfl

theorem sendOutcome_moves {call : Nat} {found : ToolCall} {event : ToolEvent} (hcall : s.calls[call]? = some found)
    (hnegotiated : found.negotiated = true) : Moves config s ((s.note call event).sendOutcome call found event) := by
  by_cases hlost : (found.cancelled || found.finished) = true
  · have hsame : (s.note call event).sendOutcome call found event = s.note call event := if_pos hlost
    rw [hsame]
    rw [Bool.or_eq_true] at hlost
    exact .single (.notes event hcall fun _ => hlost.symm)
  · have hopen : found.cancelled = false ∧ found.finished = false := by simpa using hlost
    by_cases hmodern : found.modern = true
    · exact .single (.buffers hcall hnegotiated hmodern hopen.2 hopen.1)
    · have hnoted : (s.note call event).calls[call]? =
          some { found with emitted := if found.finished then found.emitted else found.emitted ++ [event] } :=
        Heap.modify_self hcall
      unfold sendOutcome
      rw [if_neg hlost, if_neg hmodern]
      apply (Moves.single (.notes event hcall fun h => absurd h hmodern)).trans
      exact .single (.tells event _ hnoted hnegotiated)

theorem TransportStep.moves (hwired : Wired s) (hanchored : Anchored s) (hconcluding : Concluding s)
    (h : TransportStep config s action s') : Moves config s s' := by
  cases h with
  | receives hturn htoken => exact inbound_moves hwired hanchored htoken.fresh _
  | negotiates hcall hresult => exact .single (.negotiates hcall hresult)
  | attempts hcall hnegotiated hattempt => exact sendAttempt_moves hcall hnegotiated hattempt
  | records hcall hnegotiated => exact sendOutcome_moves hcall hnegotiated
  | sends htoken => exact outbound_moves hwired htoken.fresh _
  | ends hcall hscheduled htoken => exact roundTimer_moves hwired hanchored hcall htoken.fresh
  | expires hattempt hopen => exact .single (.settles (abandon_progress _ _))
  | givesUp hattempt habandoned =>
      apply Moves.trans (.single (.settles (settle_progress _ _ _)))
      exact quiet_moves rfl rfl rfl rfl rfl rfl rfl rfl
  | fails hattempt hpending =>
      apply Moves.trans (.single (.settles (abandon_progress _ _)))
      exact quiet_moves rfl rfl rfl rfl rfl rfl rfl rfl
  | @resumes before after suspended hsuspended =>
      obtain ⟨found, hcall, hfinished, hanswer⟩ := hconcluding suspended (by rw [hsuspended]; simp)
      have hquiet : Moves config s
          { s with suspended := before ++ after, handling := s.handling && !suspended.inbound } := by
        refine .aside ⟨rfl, rfl, rfl, rfl, rfl, rfl, fun other hother => ?_, [], (List.append_nil _).symm, by simp⟩
        rw [hsuspended]
        exact (List.mem_append.mp hother).elim (List.mem_append_left _) fun h =>
          List.mem_append_right _ (List.mem_cons_of_mem _ h)
      exact hquiet.trans (keepConcluded_moves
        (s := { s with suspended := before ++ after, handling := s.handling && !suspended.inbound }) hcall hfinished hanswer)
  | goesOn hhandling hnone => exact quiet_moves rfl rfl rfl rfl rfl rfl rfl rfl
  | forgets hkey => exact quiet_moves rfl rfl rfl rfl rfl rfl rfl rfl
  | disconnects => exact connectionLost_moves hwired

theorem Move.concluding (hmove : Move config s s') (h : Concluding s) : Concluding s' := by
  have hold {suspended : Suspended} (hsuspended : suspended ∈ s.suspended) :
      ∃ found, s'.calls[suspended.call]? = some found ∧ found.finished = true ∧ found.answer = some suspended.answer := by
    obtain ⟨found, hcall, hfinished, hanswer⟩ := h suspended hsuspended
    obtain ⟨after, hafter, hlater⟩ := hmove.later hcall
    exact ⟨after, hafter, hlater.finished hfinished, (hlater.answer hfinished).trans hanswer⟩
  intro suspended hsuspended
  have hlater := @hold suspended
  cases hmove with
  | aside haside => exact hlater (haside.suspended suspended hsuspended)
  | suspends answer inbound hcall hfinished hanswer =>
      rcases List.mem_append.mp hsuspended with hmem | hmem
      · exact hlater hmem
      · obtain rfl := List.mem_singleton.mp hmem
        exact ⟨_, hcall, hfinished, hanswer⟩
  | opens frame id => exact hlater hsuspended
  | negotiates hcall hresult =>
      obtain ⟨sessions, rfl⟩ := negotiate_eq hresult
      exact hlater hsuspended
  | notes event hcall hlost => exact hlater hsuspended
  | waits hcall hnegotiated hattempt hmodern hfinished hcancelled =>
      rw [waits_eq hcall hmodern hfinished hcancelled] at hsuspended
      exact hlater hsuspended
  | buffers hcall hnegotiated hmodern hfinished hcancelled =>
      rw [buffers_eq hcall hmodern hfinished hcancelled] at hsuspended
      exact hlater hsuspended
  | tells event frame hcall hnegotiated => exact hlater hsuspended
  | asks event hcall hmodern => exact hlater hsuspended
  | endsRound scheduled hcall hopen hround hbuffered hfresh htracked => exact hlater hsuspended
  | unschedules hcall hidle => exact hlater hsuspended
  | resumes id frame hopen =>
      obtain ⟨-, ⟨before, hcall, -⟩, -⟩ := openRound_eq_some.mp hopen
      obtain ⟨accepting, heq⟩ := resumes_eq hcall id frame
      rw [heq] at hsuspended
      exact hlater hsuspended
  | finishes answer hcall hfinished => exact hlater hsuspended
  | concludes answer frame hcall hfinished hcarries hanswer hsame => exact hlater hsuspended
  | releases final hcall htracked hfinished =>
      rw [release_eq hcall htracked] at hsuspended
      exact hlater hsuspended
  | cancels call =>
      apply hlater
      cases hcall : s.calls[call]? with
      | none => rwa [cancel_none hcall] at hsuspended
      | some before =>
          by_cases htracked : s.tracked.get before.originalId = some call
          · rwa [cancel_eq hcall htracked] at hsuspended
          · rwa [cancel_untracked hcall htracked] at hsuspended
  | holds held hcall hheld => exact hlater hsuspended
  | settles hprogress => exact hlater hsuspended
  | dropsAll hnone => exact hlater hsuspended

-- What the tables and the suspended conclusions are in every state of a run.
structure Sound (s : Transport) : Prop where
  wired : Wired s
  anchored : Anchored s
  concluding : Concluding s

theorem Moves.sound (h : Sound s) (hmoves : Moves config s s') : Sound s' :=
  hmoves.keeps (fun _ _ hs hmove => ⟨hmove.wired hs.wired, hmove.anchored hs.anchored, hmove.concluding hs.concluding⟩) h

theorem TransportRun.sound (hrun : TransportRun config actions s) : Sound s := by
  induction hrun with
  | start => exact ⟨.empty, Anchored.empty, fun _ hnone => by cases hnone⟩
  | step _ hstep ih => exact (hstep.moves ih.wired ih.anchored ih.concluding).sound ih

-- An invariant of the moves holds throughout a run.
theorem TransportRun.keeps {I : Transport → Prop} (hstart : I .empty)
    (hmove : ∀ s s', Sound s → I s → Move config s s' → I s') (hrun : TransportRun config actions s) : I s := by
  induction hrun with
  | start => exact hstart
  | step hrun hstep ih =>
      have hmoves := hstep.moves hrun.sound.wired hrun.sound.anchored hrun.sound.concluding
      have hboth := hmoves.keeps (I := fun s => Sound s ∧ I s)
        (fun _ _ hs hone => ⟨(Moves.single hone).sound hs.1, hmove _ _ hs.1 hs.2 hone⟩) ⟨hrun.sound, ih⟩
      exact hboth.2

end

end AuditableMcp.Mcp
