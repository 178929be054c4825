import AuditableMcp.Mcp.Moves

-- How the tables of the seam and its calls hang together, in every state it reaches.
namespace AuditableMcp.Mcp

open Transport

structure ToolCall.Wired (minted : List JsString) (found : ToolCall) : Prop where
  minted : ∀ round, found.round = some round → round.token ∈ minted
  current : found.finished = false → found.cancelled = false → (found.round = none ↔ found.currentId.isSome = true)
  held : ∀ answer, found.held = some answer → found.finished = true ∧ found.answer = some answer
  legacy : found.modern = false → found.buffered = [] ∧ found.nextAwaiting = .empty ∧ found.round = none

structure Wired (s : Transport) : Prop where
  distinct : s.tracked.keys.Nodup
  tracked : ∀ id call, s.tracked.get id = some call →
    ∃ found, s.calls[call]? = some found ∧ found.originalId = id ∧ found.cancelled = false
  rounds : ∀ token call, s.rounds.get token = some call ↔
    ∃ found round, s.calls[call]? = some found ∧ found.round = some round ∧ round.token = token
  calls : ∀ (call : Nat) (found : ToolCall), s.calls[call]? = some found → found.Wired s.minted

section

variable {s s' : Transport} {call : Nat} {change : ToolCall → ToolCall} {attempts : List Attempt}

theorem modify_congr {other : ToolCall → ToolCall} {found : ToolCall} (hcall : s.calls[call]? = some found)
    (h : change found = other found) : s.calls.modify call change = s.calls.modify call other := by
  apply List.ext_getElem?
  intro index
  by_cases hsame : call = index
  · subst hsame
    rw [Heap.modify_self hcall, Heap.modify_self hcall, h]
  · rw [List.getElem?_modify_ne _ _ hsame, List.getElem?_modify_ne _ _ hsame]

-- What changes one call, and none of what the tables name it by.
theorem Wired.update (h : Wired s) (hcalls : s'.calls = s.calls.modify call change) (htracked : s'.tracked = s.tracked)
    (hrounds : s'.rounds = s.rounds) (hminted : s'.minted = s.minted)
    (hid : ∀ found, (change found).originalId = found.originalId)
    (hcancelled : ∀ id found, s.tracked.get id = some call → (change found).cancelled = found.cancelled)
    (hround : ∀ found, (change found).round = found.round)
    (hwired : ∀ found, s.calls[call]? = some found → found.Wired s.minted → (change found).Wired s.minted) :
    Wired s' := by
  refine ⟨htracked ▸ h.distinct, fun id other hget => ?_, fun token other => ?_, fun other found' hfound' => ?_⟩
  · rw [htracked] at hget
    obtain ⟨found, hfound, hown, hlive⟩ := h.tracked id other hget
    rw [hcalls]
    by_cases hsame : call = other
    · subst hsame
      exact ⟨_, Heap.modify_self hfound, (hid found).trans hown, (hcancelled id found hget).trans hlive⟩
    · exact ⟨found, Heap.modify_other hfound hsame, hown, hlive⟩
  · rw [hrounds, h.rounds, hcalls]
    constructor
    · rintro ⟨found, round, hfound, hbears, htoken⟩
      by_cases hsame : call = other
      · subst hsame
        exact ⟨_, round, Heap.modify_self hfound, (hround found).trans hbears, htoken⟩
      · exact ⟨found, round, Heap.modify_other hfound hsame, hbears, htoken⟩
    · rintro ⟨found', round, hfound', hbears, htoken⟩
      obtain ⟨found, hfound, rfl⟩ := Heap.getElem?_modify_iff.mp hfound'
      refine ⟨found, round, hfound, ?_, htoken⟩
      by_cases hsame : call = other
      · rw [if_pos hsame, hround] at hbears
        exact hbears
      · rwa [if_neg hsame] at hbears
  · rw [hcalls] at hfound'
    obtain ⟨found, hfound, rfl⟩ := Heap.getElem?_modify_iff.mp hfound'
    rw [hminted]
    by_cases hsame : call = other
    · subst hsame
      rw [if_pos rfl]
      exact hwired found hfound (h.calls call found hfound)
    · rw [if_neg hsame]
      exact h.calls other found hfound

theorem Wired.congr (h : Wired s) (hcalls : s'.calls = s.calls) (htracked : s'.tracked = s.tracked)
    (hrounds : s'.rounds = s.rounds) (hminted : s'.minted = s.minted) : Wired s' := by
  refine ⟨htracked ▸ h.distinct, ?_, ?_, ?_⟩
  · rw [htracked, hcalls]
    exact h.tracked
  · rw [hrounds, hcalls]
    exact h.rounds
  · rw [hcalls, hminted]
    exact h.calls

end

section

variable {s : Transport} {call : Nat} {round : OpenRound} {state : JsString} {found : ToolCall}

theorem openRound_eq_some : s.openRound state = some (call, round) ↔
    s.rounds.get state = some call ∧ (∃ found, s.calls[call]? = some found ∧ found.round = some round) ∧
      round.token = state := by
  unfold openRound
  constructor
  · intro h
    obtain ⟨other, hget, h⟩ := Option.bind_eq_some_iff.mp h
    obtain ⟨open', hopen, h⟩ := Option.bind_eq_some_iff.mp h
    obtain ⟨found, hfound, hround⟩ := Option.bind_eq_some_iff.mp hopen
    by_cases htoken : open'.token = state
    · rw [if_pos htoken, Option.some_inj, Prod.mk.injEq] at h
      obtain ⟨rfl, rfl⟩ := h
      exact ⟨hget, ⟨found, hfound, hround⟩, htoken⟩
    · rw [if_neg htoken] at h
      cases h
  · rintro ⟨hget, ⟨found, hfound, hround⟩, htoken⟩
    simp [hget, hfound, hround, htoken]

-- A round that is registered is open.
theorem Wired.openRound_none (h : Wired s) : s.openRound state = none ↔ s.rounds.get state = none := by
  constructor
  · intro hnone
    cases hget : s.rounds.get state with
    | none => rfl
    | some other =>
        obtain ⟨found, round, hfound, hround, htoken⟩ := (h.rounds state other).mp hget
        have hopen := openRound_eq_some.mpr ⟨hget, ⟨found, hfound, hround⟩, htoken⟩
        rw [hnone] at hopen
        cases hopen
  · intro hnone
    simp [Transport.openRound, hnone]

-- What the answers of a retry come to.
theorem answers_eq (call : Nat) (responses : Members) (entries : List (JsString × Nat)) (s : Transport) :
    ∃ accepting : List JsString → List JsString, entries.foldl (answerAttempt call responses) s =
      { s with
        attempts := settleEach s.attempts (answerOf responses) entries
        calls := s.calls.modify call fun found => { found with accepted := accepting found.accepted } } := by
  induction entries generalizing s with
  | nil =>
      refine ⟨id, ?_⟩
      have hsame : s.calls.modify call (fun found => { found with accepted := id found.accepted }) = s.calls :=
        List.modify_id ..
      rw [hsame]
      rfl
  | cons entry rest ih =>
      have hturn : ∃ accepting : List JsString → List JsString, answerAttempt call responses s entry =
          { s with
            attempts := settle s.attempts entry.2 (answerOf responses entry)
            calls := s.calls.modify call fun found => { found with accepted := accepting found.accepted } } := by
        have hsame : s.calls.modify call (fun found => { found with accepted := id found.accepted }) = s.calls :=
          List.modify_id ..
        unfold answerAttempt
        cases hattempt : s.attempts[entry.2]? with
        | none =>
            refine ⟨id, ?_⟩
            have hout : settle s.attempts entry.2 (answerOf responses entry) = s.attempts :=
              List.modify_eq_self (List.getElem?_eq_none_iff.mp hattempt)
            rw [hsame, hout]
        | some attempt =>
            by_cases haccepts : attempt.settlement = none ∧
                Json.isText ((answerOf responses entry).get Fields.STATUS) Status.ACCEPT = true
            · exact ⟨fun accepted => accepted.insert entry.1, if_pos haccepts⟩
            · refine ⟨id, ?_⟩
              rw [hsame]
              exact if_neg haccepts
      obtain ⟨first, hfirst⟩ := hturn
      obtain ⟨later, hlater⟩ := ih (answerAttempt call responses s entry)
      refine ⟨later ∘ first, ?_⟩
      rw [List.foldl_cons, hlater, hfirst]
      simp only [List.modify_modify_eq]
      rfl

theorem resume_eq (hcall : s.calls[call]? = some found) (id : RequestId) (frame : JsonRpcFrame) :
    ∃ accepting : List JsString → List JsString, s.resume call round id frame =
      { s with
        rounds := s.rounds.delete round.token
        attempts := settleEach s.attempts (answerOf (s.responsesTo found frame)) round.awaiting.entries
        calls := s.calls.modify call fun found =>
          { found with
            round := none, ids := found.ids.insert id, currentId := some id, accepted := accepting found.accepted } } := by
  obtain ⟨accepting, hanswers⟩ := answers_eq call (s.responsesTo found frame) round.awaiting.entries
    { s.alter call fun found => { found with round := none, ids := found.ids.insert id, currentId := some id } with
      rounds := s.rounds.delete round.token }
  refine ⟨accepting, ?_⟩
  unfold resume
  simp only [hcall]
  rw [hanswers]
  simp only [Transport.alter, List.modify_modify_eq]
  rfl

theorem reschedule_eq (hcall : s.calls[call]? = some found) : s.reschedule call =
    s.alter call fun found =>
      { found with
        roundScheduled := found.roundScheduled || (!found.finished && found.buffered.any ToolEvent.isAttempt) } := by
  unfold reschedule
  simp only [hcall]
  by_cases hwaits : (!found.finished && found.buffered.any ToolEvent.isAttempt) = true
  · rw [if_pos hwaits]
    unfold scheduleRound Transport.alter
    congr 1
    apply modify_congr hcall
    simp [hwaits]
  · rw [if_neg hwaits]
    have hnot : (!found.finished && found.buffered.any ToolEvent.isAttempt) = false := by simpa using hwaits
    have hsame : s.calls.modify call (fun found =>
        { found with
          roundScheduled := found.roundScheduled || (!found.finished && found.buffered.any ToolEvent.isAttempt) }) =
        s.calls.modify call id := by
      apply modify_congr hcall
      simp [hnot]
    unfold Transport.alter
    rw [hsame, List.modify_id]

theorem resumes_eq (hcall : s.calls[call]? = some found) (id : RequestId) (frame : JsonRpcFrame) :
    ∃ accepting : List JsString → List JsString,
      (s.resume call round id frame).reschedule call =
        { s with
          rounds := s.rounds.delete round.token
          attempts := settleEach s.attempts (answerOf (s.responsesTo found frame)) round.awaiting.entries
          calls := s.calls.modify call fun found =>
            { found with
              round := none, ids := found.ids.insert id, currentId := some id, accepted := accepting found.accepted
              roundScheduled := found.roundScheduled ||
                (!found.finished && found.buffered.any ToolEvent.isAttempt) } } := by
  obtain ⟨accepting, hresume⟩ := @resume_eq s call round found hcall id frame
  refine ⟨accepting, ?_⟩
  rw [hresume, reschedule_eq (Heap.modify_self hcall)]
  simp only [Transport.alter, List.modify_modify_eq]
  rfl

theorem release_eq (hcall : s.calls[call]? = some found) (htracked : s.tracked.get found.originalId = some call)
    (final : Bool) : s.release call final =
      { s with
        tracked := s.tracked.delete found.originalId
        concluded := s.concluded.delete found.originalId
        calls := s.calls.modify call fun found => { found with held := none, round := none, nextAwaiting := .empty }
        rounds := s.roundsWithout found
        attempts := unanswered (unanswered (unanswered s.attempts (roundAwaiting found)) found.nextAwaiting)
          (s.pendingOf call)
        pending := s.pendingApart call
        sessions := s.leaveSession found final } := by
  unfold release
  simp only [hcall]
  rw [if_pos htracked]

end

section

variable {config : TransportConfig} {s s' : Transport} {call : Nat} {found : ToolCall} {event : ToolEvent}

theorem note_eq (s : Transport) (call : Nat) (event : ToolEvent) : (s.note call event).calls =
    s.calls.modify call fun found =>
      { found with emitted := if found.finished then found.emitted else found.emitted ++ [event] } := rfl

-- An attempt that waits for the next round.
theorem waits_eq (hcall : s.calls[call]? = some found) (hmodern : found.modern = true) (hfinished : found.finished = false)
    (hcancelled : found.cancelled = false) : (s.note call event).sendAttempt call found event =
      { s with
        attempts := s.attempts ++ [⟨call, event, none, false⟩]
        calls := s.calls.modify call fun found =>
          { found with
            emitted := found.emitted ++ [event], buffered := found.buffered ++ [event]
            nextAwaiting := found.nextAwaiting.set event.id s.attempts.length, roundScheduled := true } } := by
  unfold sendAttempt
  simp only [hfinished, hcancelled, hmodern, Bool.or_self, Bool.false_eq_true, if_false, if_true]
  simp only [scheduleRound, note, Transport.alter, List.modify_modify_eq]
  congr 1
  apply modify_congr hcall
  simp [hfinished]

theorem buffers_eq (hcall : s.calls[call]? = some found) (hmodern : found.modern = true) (hfinished : found.finished = false)
    (hcancelled : found.cancelled = false) : (s.note call event).sendOutcome call found event =
      { s with
        calls := s.calls.modify call fun found =>
          { found with
            emitted := found.emitted ++ [event], buffered := found.buffered ++ [event]
            accepted := found.accepted.erase event.id } } := by
  unfold sendOutcome
  simp only [hfinished, hcancelled, hmodern, Bool.or_self, Bool.false_eq_true, if_false, if_true]
  simp only [note, Transport.alter, List.modify_modify_eq]
  congr 1
  apply modify_congr hcall
  simp [hfinished]

theorem negotiate_eq {offered : AuditCapability} {result : NegotiationResult}
    (hresult : s.negotiate config call found offered = .ok (result, s')) :
    ∃ sessions : SessionTable, s' =
      { s with
        sessions := sessions
        calls := s.calls.modify call fun found => { found with negotiated := result.negotiated } } := by
  unfold Transport.negotiate at hresult
  split at hresult
  · cases hresult
  · split at hresult
    · cases hresult
    · split at hresult
      · injection hresult with hresult
        obtain ⟨rfl, rfl⟩ := Prod.mk.inj hresult
        exact ⟨s.sessions, rfl⟩
      · injection hresult with hresult
        obtain ⟨rfl, rfl⟩ := Prod.mk.inj hresult
        exact ⟨_, rfl⟩

theorem Wired.opens (h : Wired s) (frame : JsonRpcFrame) (id : RequestId) : Wired (s.takeCall frame id) := by
  have hfresh : (s.opened frame id).1.round = none ∧ (s.opened frame id).1.originalId = id ∧
      (s.opened frame id).1.cancelled = false ∧ (s.opened frame id).1.Wired s.minted := by
    unfold opened
    cases issuedSession frame with
    | none => exact ⟨rfl, rfl, rfl, ⟨by simp [newCall], by simp [newCall], by simp [newCall], by simp [newCall]⟩⟩
    | some sessionId => exact ⟨rfl, rfl, rfl, ⟨by simp [newCall], by simp [newCall], by simp [newCall], by simp [newCall]⟩⟩
  obtain ⟨hround, hid, hlive, hwired⟩ := hfresh
  have hout {call : Nat} {found : ToolCall} (hcall : s.calls[call]? = some found) :
      (s.calls ++ [(s.opened frame id).1])[call]? = some found := Heap.getElem?_append_iff.mpr (Or.inl hcall)
  refine ⟨OrderedMap.nodup_keys_set h.distinct id s.calls.length, fun other call hget => ?_, fun token call => ?_,
    fun call found hcall => ?_⟩
  · change (s.tracked.set id s.calls.length).get other = some call at hget
    rw [OrderedMap.get_set] at hget
    by_cases hother : id = other
    · rw [if_pos hother, Option.some_inj] at hget
      subst hget
      exact ⟨(s.opened frame id).1, Heap.getElem?_append_iff.mpr (Or.inr ⟨rfl, rfl⟩), hid.trans hother, hlive⟩
    · rw [if_neg hother] at hget
      obtain ⟨found, hcall, hown⟩ := h.tracked other call hget
      exact ⟨found, hout hcall, hown⟩
  · change s.rounds.get token = some call ↔ _
    rw [h.rounds]
    constructor
    · rintro ⟨found, round, hcall, hbears⟩
      exact ⟨found, round, hout hcall, hbears⟩
    · rintro ⟨found, round, hcall, hbears, htoken⟩
      rcases Heap.getElem?_append_iff.mp hcall with hold | ⟨-, rfl⟩
      · exact ⟨found, round, hold, hbears, htoken⟩
      · rw [hround] at hbears
        cases hbears
  · rcases Heap.getElem?_append_iff.mp hcall with hold | ⟨-, rfl⟩
    · exact h.calls call found hold
    · exact hwired

theorem Wired.sendRound (h : Wired s) {requestId : RequestId} {token : JsString} (scheduled : Bool)
    (hcall : s.calls[call]? = some found) (hround : found.round = none) (hmodern : found.buffered ≠ [])
    (hfresh : token ∉ s.minted) : Wired (s.sendRound call found requestId token scheduled) := by
  have hunused (other : Nat) (round : OpenRound) (before : ToolCall) (hother : s.calls[other]? = some before)
      (hbears : before.round = some round) : round.token ≠ token :=
    fun hsame => hfresh (hsame ▸ (h.calls other before hother).minted round hbears)
  refine ⟨h.distinct, fun id other hget => ?_, fun other index => ?_, fun index after hafter => ?_⟩
  · obtain ⟨before, hbefore, hown, hlive⟩ := h.tracked id other hget
    by_cases hsame : call = other
    · subst hsame
      exact ⟨_, Heap.modify_self hbefore, hown, hlive⟩
    · exact ⟨before, Heap.modify_other hbefore hsame, hown, hlive⟩
  · change (s.rounds.set token call).get other = some index ↔ _
    rw [OrderedMap.get_set]
    by_cases hother : token = other
    · subst hother
      rw [if_pos rfl, Option.some_inj]
      constructor
      · rintro rfl
        exact ⟨_, _, Heap.modify_self hcall, rfl, rfl⟩
      · rintro ⟨after, round, hafter, hbears, htoken⟩
        obtain ⟨before, hbefore, rfl⟩ := Heap.getElem?_modify_iff.mp hafter
        by_contra hsame
        rw [if_neg hsame] at hbears
        exact hunused index round before hbefore hbears htoken
    · rw [if_neg hother, h.rounds]
      constructor
      · rintro ⟨before, round, hbefore, hbears, htoken⟩
        have hne : call ≠ index := by
          rintro rfl
          rw [hcall, Option.some_inj] at hbefore
          rw [← hbefore, hround] at hbears
          cases hbears
        exact ⟨before, round, Heap.modify_other hbefore hne, hbears, htoken⟩
      · rintro ⟨after, round, hafter, hbears, htoken⟩
        obtain ⟨before, hbefore, rfl⟩ := Heap.getElem?_modify_iff.mp hafter
        by_cases hsame : call = index
        · rw [if_pos hsame] at hbears
          obtain rfl := Option.some_inj.mp hbears
          exact absurd htoken hother
        · rw [if_neg hsame] at hbears
          exact ⟨before, round, hbefore, hbears, htoken⟩
  · obtain ⟨before, hbefore, rfl⟩ := Heap.getElem?_modify_iff.mp hafter
    have hold := h.calls index before hbefore
    by_cases hsame : call = index
    · rw [if_pos hsame]
      subst hsame
      obtain rfl := Option.some_inj.mp (hcall.symm.trans hbefore)
      refine ⟨fun round hbears => ?_, by simp, hold.held, fun hlegacy => ?_⟩
      · obtain rfl := Option.some_inj.mp hbears
        exact List.mem_append_right _ (List.mem_singleton.mpr rfl)
      · exact absurd (hold.legacy hlegacy).1 hmodern
    · rw [if_neg hsame]
      exact ⟨fun round hbears => List.mem_append_left _ (hold.minted round hbears), hold.current, hold.held, hold.legacy⟩

-- A call's round ends, and its token names no open round any more.
theorem Wired.closes (h : Wired s) {change : ToolCall → ToolCall} (hcall : s.calls[call]? = some found)
    (hcalls : s'.calls = s.calls.modify call change) (hrounds : s'.rounds = s.roundsWithout found)
    (hminted : s'.minted = s.minted) (hround : (change found).round = none)
    (hwired : (change found).Wired s.minted) (hdistinct : s'.tracked.keys.Nodup)
    (htracked : ∀ id other, s'.tracked.get id = some other → s.tracked.get id = some other ∧
      (other = call → (change found).originalId = found.originalId ∧ (change found).cancelled = found.cancelled)) :
    Wired s' := by
  refine ⟨hdistinct, fun id other hget => ?_, fun token other => ?_, fun other after hafter => ?_⟩
  · obtain ⟨hget, hsame⟩ := htracked id other hget
    obtain ⟨before, hbefore, hown, hlive⟩ := h.tracked id other hget
    rw [hcalls]
    by_cases hc : call = other
    · subst hc
      obtain rfl := Option.some_inj.mp (hcall.symm.trans hbefore)
      obtain ⟨hid, hcancelled⟩ := hsame rfl
      exact ⟨_, Heap.modify_self hcall, hid.trans hown, hcancelled.trans hlive⟩
    · exact ⟨before, Heap.modify_other hbefore hc, hown, hlive⟩
  · have hget : s'.rounds.get token = some other ↔ s.rounds.get token = some other ∧ other ≠ call := by
      rw [hrounds, roundsWithout]
      cases hbears : found.round with
      | none =>
          refine ⟨fun hold => ⟨hold, ?_⟩, And.left⟩
          rintro rfl
          obtain ⟨before, round, hbefore, hround', -⟩ := (h.rounds token other).mp hold
          obtain rfl := Option.some_inj.mp (hcall.symm.trans hbefore)
          rw [hbears] at hround'
          cases hround'
      | some round =>
          have hown : s.rounds.get round.token = some call := (h.rounds _ _).mpr ⟨found, round, hcall, hbears, rfl⟩
          rw [OrderedMap.get_delete]
          by_cases htoken : round.token = token
          · rw [if_pos htoken]
            subst htoken
            simp only [hown, Option.some_inj, reduceCtorEq, ne_eq, false_iff, not_and, not_not]
            exact fun hother => hother.symm
          · rw [if_neg htoken]
            refine ⟨fun hold => ⟨hold, ?_⟩, And.left⟩
            rintro rfl
            obtain ⟨before, round', hbefore, hround', htoken'⟩ := (h.rounds token other).mp hold
            obtain rfl := Option.some_inj.mp (hcall.symm.trans hbefore)
            rw [hbears, Option.some_inj] at hround'
            exact htoken (hround' ▸ htoken')
    rw [hget, h.rounds, hcalls]
    constructor
    · rintro ⟨⟨before, round, hbefore, hbears⟩, hne⟩
      exact ⟨before, round, Heap.modify_other hbefore (Ne.symm hne), hbears⟩
    · rintro ⟨after, round, hafter, hbears, htoken⟩
      obtain ⟨before, hbefore, rfl⟩ := Heap.getElem?_modify_iff.mp hafter
      by_cases hc : call = other
      · subst hc
        obtain rfl := Option.some_inj.mp (hcall.symm.trans hbefore)
        rw [if_pos rfl, hround] at hbears
        cases hbears
      · rw [if_neg hc] at hbears
        exact ⟨⟨before, round, hbefore, hbears, htoken⟩, Ne.symm hc⟩
  · rw [hcalls] at hafter
    obtain ⟨before, hbefore, rfl⟩ := Heap.getElem?_modify_iff.mp hafter
    rw [hminted]
    by_cases hc : call = other
    · subst hc
      obtain rfl := Option.some_inj.mp (hcall.symm.trans hbefore)
      rw [if_pos rfl]
      exact hwired
    · rw [if_neg hc]
      exact h.calls other before hbefore

end

section

variable {config : TransportConfig} {s s' : Transport} {call : Nat} {found : ToolCall}

-- The call is at its end: nothing of it is in the tables any more.
theorem Wired.release (h : Wired s) (hcall : s.calls[call]? = some found)
    (htracked : s.tracked.get found.originalId = some call) (hfinished : found.finished = true) (final : Bool) :
    Wired (s.release call final) := by
  rw [release_eq hcall htracked]
  have hold := h.calls call found hcall
  refine h.closes hcall rfl rfl rfl rfl ⟨by simp, fun hopen => ?_, by simp, fun hlegacy => ?_⟩
    (OrderedMap.nodup_keys_delete h.distinct _) fun id other hget => ?_
  · rw [hfinished] at hopen
    cases hopen
  · exact ⟨(hold.legacy hlegacy).1, rfl, rfl⟩
  · change (s.tracked.delete found.originalId).get id = some other at hget
    rw [OrderedMap.get_delete] at hget
    by_cases hid : found.originalId = id
    · rw [if_pos hid] at hget
      cases hget
    · rw [if_neg hid] at hget
      exact ⟨hget, fun _ => ⟨rfl, (h.tracked id other hget).elim fun _ _ => rfl⟩⟩

theorem cancel_eq (hcall : s.calls[call]? = some found) (htracked : s.tracked.get found.originalId = some call) :
    (s.alter call fun found => { found with cancelled := true }).release call true =
      { s with
        tracked := s.tracked.delete found.originalId
        concluded := s.concluded.delete found.originalId
        calls := s.calls.modify call fun found =>
          { found with cancelled := true, held := none, round := none, nextAwaiting := .empty }
        rounds := s.roundsWithout found
        attempts := unanswered (unanswered (unanswered s.attempts (roundAwaiting found)) found.nextAwaiting)
          (s.pendingOf call)
        pending := s.pendingApart call
        sessions := s.leaveSession found true } := by
  have hmarked : (s.alter call fun found => { found with cancelled := true }).calls[call]? =
      some { found with cancelled := true } := Heap.modify_self hcall
  rw [release_eq hmarked htracked]
  simp only [Transport.alter, List.modify_modify_eq]
  rfl

theorem cancel_untracked (hcall : s.calls[call]? = some found) (htracked : s.tracked.get found.originalId ≠ some call) :
    (s.alter call fun found => { found with cancelled := true }).release call true =
      s.alter call fun found => { found with cancelled := true } := by
  have hmarked : (s.alter call fun found => { found with cancelled := true }).calls[call]? =
      some { found with cancelled := true } := Heap.modify_self hcall
  unfold Transport.release
  simp only [hmarked]
  exact if_neg htracked

theorem cancel_none (hcall : s.calls[call]? = none) :
    (s.alter call fun found => { found with cancelled := true }).release call true = s := by
  have hsame : (s.alter call fun found => { found with cancelled := true }) = s := by
    unfold Transport.alter
    rw [List.modify_eq_self (List.getElem?_eq_none_iff.mp hcall)]
  rw [hsame]
  unfold Transport.release
  rw [hcall]

theorem Wired.cancel (h : Wired s) (call : Nat) :
    Wired ((s.alter call fun found => { found with cancelled := true }).release call true) := by
  cases hcall : s.calls[call]? with
  | none =>
      rw [cancel_none hcall]
      exact h
  | some found =>
      have hold := h.calls call found hcall
      by_cases htracked : s.tracked.get found.originalId = some call
      · rw [cancel_eq hcall htracked]
        refine h.closes hcall rfl rfl rfl rfl ⟨by simp, by simp, by simp, fun hlegacy => ?_⟩
          (OrderedMap.nodup_keys_delete h.distinct _) fun id other hget => ?_
        · exact ⟨(hold.legacy hlegacy).1, rfl, rfl⟩
        · change (s.tracked.delete found.originalId).get id = some other at hget
          rw [OrderedMap.get_delete] at hget
          by_cases hid : found.originalId = id
          · rw [if_pos hid] at hget
            cases hget
          · rw [if_neg hid] at hget
            refine ⟨hget, fun hsame => absurd ?_ hid⟩
            obtain ⟨before, hbefore, hown, -⟩ := h.tracked id other hget
            rw [hsame, hcall, Option.some_inj] at hbefore
            exact (congrArg ToolCall.originalId hbefore).trans hown
      · rw [cancel_untracked hcall htracked]
        refine h.update rfl rfl rfl rfl (fun _ => rfl) (fun id _ hget => ?_) (fun _ => rfl) fun before hbefore hwired => ?_
        · obtain ⟨before, hbefore, hown, -⟩ := h.tracked id call hget
          rw [hcall, Option.some_inj] at hbefore
          exact absurd (hbefore ▸ hown ▸ hget) htracked
        · exact ⟨hwired.minted, by simp, hwired.held, hwired.legacy⟩

theorem Wired.resumes (h : Wired s) {round : OpenRound} {state : JsString} (id : RequestId) (frame : JsonRpcFrame)
    (hopen : s.openRound state = some (call, round)) : Wired ((s.resume call round id frame).reschedule call) := by
  obtain ⟨-, ⟨found, hcall, hround⟩, htoken⟩ := openRound_eq_some.mp hopen
  obtain ⟨accepting, heq⟩ := @resumes_eq s call round found hcall id frame
  rw [heq]
  have hold := h.calls call found hcall
  have hrounds : s.rounds.delete round.token = s.roundsWithout found := by
    unfold roundsWithout
    rw [hround]
  refine h.closes hcall rfl hrounds rfl rfl ⟨by simp, by simp, hold.held, fun hlegacy => ?_⟩ h.distinct
    fun other index hget => ⟨hget, fun _ => ⟨rfl, rfl⟩⟩
  exact ⟨(hold.legacy hlegacy).1, (hold.legacy hlegacy).2.1, rfl⟩

theorem Move.wired (hmove : Move config s s') (h : Wired s) : Wired s' := by
  cases hmove with
  | aside haside => exact h.congr haside.calls haside.tracked haside.rounds haside.minted
  | opens frame id => exact h.opens frame id
  | negotiates hcall hresult =>
      obtain ⟨sessions, rfl⟩ := negotiate_eq hresult
      exact h.update rfl rfl rfl rfl (fun _ => rfl) (fun _ _ _ => rfl) (fun _ => rfl) fun _ _ hwired =>
        ⟨hwired.minted, hwired.current, hwired.held, hwired.legacy⟩
  | notes event hcall hlost =>
      exact h.update rfl rfl rfl rfl (fun _ => rfl) (fun _ _ _ => rfl) (fun _ => rfl) fun _ _ hwired =>
        ⟨hwired.minted, hwired.current, hwired.held, hwired.legacy⟩
  | waits hcall hnegotiated hattempt hmodern hfinished hcancelled =>
      rw [waits_eq hcall hmodern hfinished hcancelled]
      refine h.update rfl rfl rfl rfl (fun _ => rfl) (fun _ _ _ => rfl) (fun _ => rfl) fun before hbefore hwired => ?_
      obtain rfl := Option.some_inj.mp (hcall.symm.trans hbefore)
      refine ⟨hwired.minted, hwired.current, hwired.held, fun hlegacy => ?_⟩
      rw [hmodern] at hlegacy
      cases hlegacy
  | buffers hcall hnegotiated hmodern hfinished hcancelled =>
      rw [buffers_eq hcall hmodern hfinished hcancelled]
      refine h.update rfl rfl rfl rfl (fun _ => rfl) (fun _ _ _ => rfl) (fun _ => rfl) fun before hbefore hwired => ?_
      obtain rfl := Option.some_inj.mp (hcall.symm.trans hbefore)
      refine ⟨hwired.minted, hwired.current, hwired.held, fun hlegacy => ?_⟩
      rw [hmodern] at hlegacy
      cases hlegacy
  | tells event frame hcall hnegotiated => exact h.congr rfl rfl rfl rfl
  | asks event hcall hmodern => exact h.congr rfl rfl rfl rfl
  | endsRound scheduled hcall hopen hround hbuffered hfresh htracked => exact h.sendRound scheduled hcall hround hbuffered hfresh
  | unschedules hcall hidle =>
      exact h.update rfl rfl rfl rfl (fun _ => rfl) (fun _ _ _ => rfl) (fun _ => rfl) fun _ _ hwired =>
        ⟨hwired.minted, hwired.current, hwired.held, hwired.legacy⟩
  | resumes id frame hopen => exact h.resumes id frame hopen
  | finishes answer hcall hfinished =>
      refine h.update rfl rfl rfl rfl (fun _ => rfl) (fun _ _ _ => rfl) (fun _ => rfl) fun before hbefore hwired => ?_
      obtain rfl := Option.some_inj.mp (hcall.symm.trans hbefore)
      refine ⟨hwired.minted, by simp [abandoning, concluding], fun held hheld => ?_, fun hlegacy => ?_⟩
      · have hended := (hwired.held held hheld).1
        rw [hfinished] at hended
        cases hended
      obtain ⟨hbuffered, -, hround⟩ := hwired.legacy hlegacy
      exact ⟨by simp [abandoning, concluding, hbuffered], rfl, hround⟩
  | concludes answer frame hcall hfinished hcarries hanswer hsame =>
      refine h.update rfl rfl rfl rfl (fun _ => rfl) (fun _ _ _ => rfl) (fun _ => rfl) fun before _ hwired => ?_
      exact ⟨hwired.minted, hwired.current, hwired.held, fun hlegacy => ⟨rfl, (hwired.legacy hlegacy).2⟩⟩
  | suspends answer inbound hcall hfinished hanswer => exact h.congr rfl rfl rfl rfl
  | releases final hcall htracked hfinished => exact h.release hcall htracked hfinished final
  | cancels call => exact h.cancel call
  | holds held hcall hheld =>
      refine h.update rfl rfl rfl rfl (fun _ => rfl) (fun _ _ _ => rfl) (fun _ => rfl) fun before hbefore hwired => ?_
      obtain rfl := Option.some_inj.mp (hcall.symm.trans hbefore)
      exact ⟨hwired.minted, hwired.current, hheld, hwired.legacy⟩
  | settles hprogress => exact h.congr rfl rfl rfl rfl
  | dropsAll hnone => exact h.congr rfl rfl rfl rfl

theorem Moves.wired (h : Wired s) (hmoves : Moves config s s') : Wired s' :=
  hmoves.keeps (fun _ _ hs hmove => hmove.wired hs) h

theorem Wired.empty : Wired .empty := by
  refine ⟨List.nodup_nil, ?_, ?_, ?_⟩
  · intro id call hget
    cases hget
  · intro token call
    constructor
    · intro hget
      cases hget
    · rintro ⟨found, round, hcall, -⟩
      cases hcall
  · intro call found hcall
    cases hcall

end

-- What of a call no move changes, and what stays once it is so.
structure ToolCall.Later (before after : ToolCall) : Prop where
  originalId : after.originalId = before.originalId
  modern : after.modern = before.modern
  hostCapability : after.hostCapability = before.hostCapability
  session : after.session = before.session
  numbering : after.numbering = before.numbering
  finished : before.finished = true → after.finished = true
  cancelled : before.cancelled = true → after.cancelled = true
  answer : before.finished = true → after.answer = before.answer

-- Every suspended conclusion is one of a handler that concluded, with its frame.
def Concluding (s : Transport) : Prop :=
  ∀ suspended ∈ s.suspended, ∃ found, s.calls[suspended.call]? = some found ∧ found.finished = true ∧
    found.answer = some suspended.answer

section

variable {config : TransportConfig} {s s' : Transport} {call : Nat} {found : ToolCall}

theorem ToolCall.Later.refl (found : ToolCall) : found.Later found :=
  ⟨rfl, rfl, rfl, rfl, rfl, fun h => h, fun h => h, fun _ => rfl⟩

theorem ToolCall.Later.trans {a b c : ToolCall} (h : a.Later b) (h' : b.Later c) : a.Later c :=
  ⟨h'.originalId.trans h.originalId, h'.modern.trans h.modern, h'.hostCapability.trans h.hostCapability,
    h'.session.trans h.session, h'.numbering.trans h.numbering, fun hf => h'.finished (h.finished hf),
    fun hc => h'.cancelled (h.cancelled hc), fun hf => (h'.answer (h.finished hf)).trans (h.answer hf)⟩

theorem later_modify {change : ToolCall → ToolCall} {other : Nat} (hcalls : s'.calls = s.calls.modify other change)
    (hcall : s.calls[call]? = some found)
    (hchange : ∀ before, s.calls[other]? = some before → before.Later (change before)) :
    ∃ after, s'.calls[call]? = some after ∧ found.Later after := by
  rw [hcalls]
  by_cases hsame : other = call
  · subst hsame
    exact ⟨_, Heap.modify_self hcall, hchange found hcall⟩
  · exact ⟨found, Heap.modify_other hcall hsame, .refl found⟩

theorem Move.later (hmove : Move config s s') (hcall : s.calls[call]? = some found) :
    ∃ after, s'.calls[call]? = some after ∧ found.Later after := by
  cases hmove with
  | aside haside => exact ⟨found, haside.calls ▸ hcall, .refl found⟩
  | opens frame id => exact ⟨found, Heap.getElem?_append_iff.mpr (Or.inl hcall), .refl found⟩
  | negotiates hother hresult =>
      obtain ⟨sessions, rfl⟩ := negotiate_eq hresult
      exact later_modify rfl hcall fun _ _ => ⟨rfl, rfl, rfl, rfl, rfl, fun h => h, fun h => h, fun _ => rfl⟩
  | notes event hother hlost => exact later_modify rfl hcall fun _ _ => ⟨rfl, rfl, rfl, rfl, rfl, fun h => h, fun h => h, fun _ => rfl⟩
  | waits hother hnegotiated hattempt hmodern hfinished hcancelled =>
      rw [waits_eq hother hmodern hfinished hcancelled]
      exact later_modify rfl hcall fun _ _ => ⟨rfl, rfl, rfl, rfl, rfl, fun h => h, fun h => h, fun _ => rfl⟩
  | buffers hother hnegotiated hmodern hfinished hcancelled =>
      rw [buffers_eq hother hmodern hfinished hcancelled]
      exact later_modify rfl hcall fun _ _ => ⟨rfl, rfl, rfl, rfl, rfl, fun h => h, fun h => h, fun _ => rfl⟩
  | tells event frame hother hnegotiated => exact ⟨found, hcall, .refl found⟩
  | asks event hother hmodern => exact ⟨found, hcall, .refl found⟩
  | endsRound scheduled hother hopen hround hbuffered hfresh htracked =>
      exact later_modify rfl hcall fun _ _ => ⟨rfl, rfl, rfl, rfl, rfl, fun h => h, fun h => h, fun _ => rfl⟩
  | unschedules hother hidle => exact later_modify rfl hcall fun _ _ => ⟨rfl, rfl, rfl, rfl, rfl, fun h => h, fun h => h, fun _ => rfl⟩
  | resumes id frame hopen =>
      obtain ⟨-, ⟨before, hother, -⟩, -⟩ := openRound_eq_some.mp hopen
      obtain ⟨accepting, heq⟩ := resumes_eq hother id frame
      rw [heq]
      exact later_modify rfl hcall fun _ _ => ⟨rfl, rfl, rfl, rfl, rfl, fun h => h, fun h => h, fun _ => rfl⟩
  | finishes answer hother hfinished =>
      refine later_modify rfl hcall fun before hbefore => ⟨rfl, rfl, rfl, rfl, rfl, fun _ => rfl, fun h => h, fun hends => ?_⟩
      obtain rfl := Option.some_inj.mp (hother.symm.trans hbefore)
      rw [hfinished] at hends
      cases hends
  | concludes answer frame hother hfinished hcarries hanswer hsame =>
      exact later_modify rfl hcall fun _ _ => ⟨rfl, rfl, rfl, rfl, rfl, fun h => h, fun h => h, fun _ => rfl⟩
  | suspends answer inbound hother hfinished hanswer => exact ⟨found, hcall, .refl found⟩
  | releases final hother htracked hfinished =>
      rw [release_eq hother htracked]
      exact later_modify rfl hcall fun _ _ => ⟨rfl, rfl, rfl, rfl, rfl, fun h => h, fun h => h, fun _ => rfl⟩
  | cancels other =>
      cases hother : s.calls[other]? with
      | none =>
          rw [cancel_none hother]
          exact ⟨found, hcall, .refl found⟩
      | some before =>
          by_cases htracked : s.tracked.get before.originalId = some other
          · rw [cancel_eq hother htracked]
            exact later_modify rfl hcall fun _ _ => ⟨rfl, rfl, rfl, rfl, rfl, fun h => h, fun _ => rfl, fun _ => rfl⟩
          · rw [cancel_untracked hother htracked]
            exact later_modify rfl hcall fun _ _ => ⟨rfl, rfl, rfl, rfl, rfl, fun h => h, fun _ => rfl, fun _ => rfl⟩
  | holds held hother hheld => exact later_modify rfl hcall fun _ _ => ⟨rfl, rfl, rfl, rfl, rfl, fun h => h, fun h => h, fun _ => rfl⟩
  | settles hprogress => exact ⟨found, hcall, .refl found⟩
  | dropsAll hnone => exact ⟨found, hcall, .refl found⟩

end

-- A call that its handler, a round or an attempt still waits on.
def ToolCall.AtWork (found : ToolCall) : Prop :=
  (found.finished = false ∧ found.cancelled = false) ∨ found.round.isSome = true ∨ found.nextAwaiting ≠ .empty

-- Where no request id came twice, a call that is waited on is found under its id.
def Anchored (s : Transport) : Prop :=
  Named s → ∀ (call : Nat) (found : ToolCall), s.calls[call]? = some found → found.AtWork →
    s.tracked.get found.originalId = some call

section

variable {config : TransportConfig} {s s' : Transport} {call : Nat} {found : ToolCall} {change : ToolCall → ToolCall}

theorem named_modify {calls : List ToolCall} (hid : ∀ found, (change found).originalId = found.originalId) :
    (calls.modify call change).map ToolCall.originalId = calls.map ToolCall.originalId := by
  apply List.ext_getElem?
  intro index
  rw [List.getElem?_map, List.getElem?_map, List.getElem?_modify]
  cases calls[index]? with
  | none => rfl
  | some found =>
      by_cases hsame : call = index
      · simp [hsame, hid]
      · simp [hsame]

theorem Named.of_modify (hnamed : Named s') (hcalls : s'.calls = s.calls.modify call change)
    (hid : ∀ found, (change found).originalId = found.originalId) : Named s := by
  unfold Named at hnamed ⊢
  rwa [hcalls, named_modify hid] at hnamed

-- Two calls with one id are one.
theorem Named.same {other : Nat} {found' : ToolCall} (h : Named s) (hcall : s.calls[call]? = some found)
    (hother : s.calls[other]? = some found') (hid : found.originalId = found'.originalId) : call = other := by
  have hfirst : (s.calls.map ToolCall.originalId)[call]? = some found.originalId := by simp [hcall]
  have hsecond : (s.calls.map ToolCall.originalId)[other]? = some found.originalId := by simp [hother, hid]
  have hlt : call < (s.calls.map ToolCall.originalId).length := Heap.lt_of_getElem? hfirst
  exact (List.getElem?_inj hlt h).mp (hfirst.trans hsecond.symm)

theorem Anchored.update (h : Anchored s) (hcalls : s'.calls = s.calls.modify call change)
    (htracked : s'.tracked = s.tracked) (hid : ∀ found, (change found).originalId = found.originalId)
    (hwork : ∀ before, s.calls[call]? = some before → (change before).AtWork →
      before.AtWork ∨ (Named s → s.tracked.get before.originalId = some call)) : Anchored s' := by
  intro hnamed other after hafter hatWork
  have hnamed' := hnamed.of_modify hcalls hid
  rw [hcalls] at hafter
  obtain ⟨before, hbefore, rfl⟩ := Heap.getElem?_modify_iff.mp hafter
  rw [htracked]
  by_cases hsame : call = other
  · subst hsame
    rw [if_pos rfl] at hatWork ⊢
    rw [hid]
    exact (hwork before hbefore hatWork).elim (h hnamed' call before hbefore) fun hdirect => hdirect hnamed'
  · rw [if_neg hsame] at hatWork ⊢
    exact h hnamed' other before hbefore hatWork

theorem Anchored.congr (h : Anchored s) (hcalls : s'.calls = s.calls) (htracked : s'.tracked = s.tracked) :
    Anchored s' := by
  unfold Anchored Named
  rw [hcalls, htracked]
  exact h

-- A call that nothing waits on any more leaves the table.
theorem Anchored.leaves (h : Anchored s) (hcall : s.calls[call]? = some found)
    (hcalls : s'.calls = s.calls.modify call change) (htracked : s'.tracked = s.tracked.delete found.originalId)
    (hid : ∀ found, (change found).originalId = found.originalId) (hidle : ¬(change found).AtWork) : Anchored s' := by
  intro hnamed other after hafter hatWork
  have hnamed' := hnamed.of_modify hcalls hid
  rw [hcalls] at hafter
  obtain ⟨before, hbefore, rfl⟩ := Heap.getElem?_modify_iff.mp hafter
  by_cases hsame : call = other
  · subst hsame
    obtain rfl := Option.some_inj.mp (hcall.symm.trans hbefore)
    rw [if_pos rfl] at hatWork
    exact absurd hatWork hidle
  · rw [if_neg hsame] at hatWork ⊢
    rw [htracked, OrderedMap.get_delete, if_neg fun hown => hsame (hnamed'.same hcall hbefore hown)]
    exact h hnamed' other before hbefore hatWork

theorem Anchored.opens (h : Anchored s) (frame : JsonRpcFrame) (id : RequestId) :
    Anchored (s.takeCall frame id) := by
  intro hnamed other after hafter hatWork
  have hid : (s.opened frame id).1.originalId = id := by
    unfold opened
    cases issuedSession frame <;> rfl
  have hall : ((s.calls ++ [(s.opened frame id).1]).map ToolCall.originalId).Nodup := hnamed
  rw [List.map_append, List.map_singleton, hid, List.nodup_append] at hall
  obtain ⟨hnamed', -, hapart⟩ := hall
  change (s.tracked.set id s.calls.length).get after.originalId = some other
  rw [OrderedMap.get_set]
  rcases Heap.getElem?_append_iff.mp hafter with hold | ⟨rfl, rfl⟩
  · have hne : id ≠ after.originalId := by
      intro hsame
      refine hapart after.originalId ?_ id (List.mem_singleton.mpr rfl) hsame.symm
      exact List.mem_map_of_mem (List.mem_of_getElem? hold)
    rw [if_neg hne]
    exact h hnamed' other after hold hatWork
  · rw [if_pos hid.symm]

theorem Anchored.cancel (h : Anchored s) (call : Nat) :
    Anchored ((s.alter call fun found => { found with cancelled := true }).release call true) := by
  cases hcall : s.calls[call]? with
  | none =>
      rw [cancel_none hcall]
      exact h
  | some found =>
      by_cases htracked : s.tracked.get found.originalId = some call
      · rw [cancel_eq hcall htracked]
        exact h.leaves hcall rfl rfl (fun _ => rfl) (by simp [ToolCall.AtWork])
      · rw [cancel_untracked hcall htracked]
        refine h.update rfl rfl (fun _ => rfl) fun before hbefore hatWork => Or.inl ?_
        rcases hatWork with ⟨-, hlive⟩ | hrest
        · cases hlive
        · exact Or.inr hrest

theorem Move.anchored (hmove : Move config s s') (h : Anchored s) : Anchored s' := by
  cases hmove with
  | aside haside => exact h.congr haside.calls haside.tracked
  | opens frame id => exact h.opens frame id
  | negotiates hcall hresult =>
      obtain ⟨sessions, rfl⟩ := negotiate_eq hresult
      exact h.update rfl rfl (fun _ => rfl) fun _ _ hatWork => Or.inl hatWork
  | notes event hcall hlost => exact h.update rfl rfl (fun _ => rfl) fun _ _ hatWork => Or.inl hatWork
  | waits hcall hnegotiated hattempt hmodern hfinished hcancelled =>
      rw [waits_eq hcall hmodern hfinished hcancelled]
      refine h.update rfl rfl (fun _ => rfl) fun before hbefore _ => Or.inl (Or.inl ?_)
      obtain rfl := Option.some_inj.mp (hcall.symm.trans hbefore)
      exact ⟨hfinished, hcancelled⟩
  | buffers hcall hnegotiated hmodern hfinished hcancelled =>
      rw [buffers_eq hcall hmodern hfinished hcancelled]
      exact h.update rfl rfl (fun _ => rfl) fun _ _ hatWork => Or.inl hatWork
  | tells event frame hcall hnegotiated => exact h.congr rfl rfl
  | asks event hcall hmodern => exact h.congr rfl rfl
  | endsRound scheduled hcall hopen hround hbuffered hfresh htracked =>
      refine h.update rfl rfl (fun _ => rfl) fun before hbefore _ => Or.inr fun hnamed => ?_
      obtain rfl := Option.some_inj.mp (hcall.symm.trans hbefore)
      exact htracked hnamed
  | unschedules hcall hidle => exact h.update rfl rfl (fun _ => rfl) fun _ _ hatWork => Or.inl hatWork
  | resumes id frame hopen =>
      obtain ⟨-, ⟨before, hcall, -⟩, -⟩ := openRound_eq_some.mp hopen
      obtain ⟨accepting, heq⟩ := resumes_eq hcall id frame
      rw [heq]
      refine h.update rfl rfl (fun _ => rfl) fun _ _ hatWork => Or.inl ?_
      rcases hatWork with hlive | hround | hnext
      · exact Or.inl hlive
      · cases hround
      · exact Or.inr (Or.inr hnext)
  | finishes answer hcall hfinished =>
      refine h.update rfl rfl (fun _ => rfl) fun before _ hatWork => Or.inl ?_
      rcases hatWork with ⟨hopen, -⟩ | hround | hnext
      · cases hopen
      · exact Or.inr (Or.inl hround)
      · exact absurd rfl hnext
  | concludes answer frame hcall hfinished hcarries hanswer hsame =>
      exact h.update rfl rfl (fun _ => rfl) fun _ _ hatWork => Or.inl hatWork
  | suspends answer inbound hcall hfinished hanswer => exact h.congr rfl rfl
  | releases final hcall htracked hfinished =>
      rw [release_eq hcall htracked]
      exact h.leaves hcall rfl rfl (fun _ => rfl) (by simp [ToolCall.AtWork, hfinished])
  | cancels call => exact h.cancel call
  | holds held hcall hheld => exact h.update rfl rfl (fun _ => rfl) fun _ _ hatWork => Or.inl hatWork
  | settles hprogress => exact h.congr rfl rfl
  | dropsAll hnone => exact h.congr rfl rfl

theorem Anchored.empty : Anchored .empty := by
  intro _ call found hcall
  cases hcall

end

end AuditableMcp.Mcp
