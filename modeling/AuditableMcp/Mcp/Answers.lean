import AuditableMcp.Mcp.Tokens

-- What settles an attempt: the host's answer to it, or nothing that lets its operation run.
namespace AuditableMcp.Mcp

open Transport

-- What is settled anew is unanswered.
def Silenced (before after : List Attempt) : Prop :=
  ∀ (attempt : Nat) (entry : Attempt), before[attempt]? = some entry → ∃ entry', after[attempt]? = some entry' ∧
    entry.Later entry' ∧ (entry.settlement = none → entry'.settlement = none ∨ entry'.settlement = some unavailableResponse)

def Accepts (response : Json) : Prop := Json.isText (response.get Fields.STATUS) Status.ACCEPT = true

section

variable {attempts attempts' attempts'' : List Attempt} {attempt : Nat}

theorem Silenced.refl (attempts : List Attempt) : Silenced attempts attempts :=
  fun _ entry hentry => ⟨entry, hentry, .refl entry, Or.inl⟩

theorem Silenced.trans (h : Silenced attempts attempts') (h' : Silenced attempts' attempts'') :
    Silenced attempts attempts'' := by
  intro attempt entry hentry
  obtain ⟨middle, hmiddle, hlater, hsettled⟩ := h attempt entry hentry
  obtain ⟨last, hlast, hlater', hsettled'⟩ := h' attempt middle hmiddle
  refine ⟨last, hlast, hlater.trans hlater', fun hopen => ?_⟩
  rcases hsettled hopen with hnone | hsome
  · exact hsettled' hnone
  · exact Or.inr (hlater'.kept _ hsome)

theorem silenced_append (attempts more : List Attempt) : Silenced attempts (attempts ++ more) :=
  fun attempt entry hentry => by
    have hlt := Heap.lt_of_getElem? hentry
    exact ⟨entry, by rw [List.getElem?_append_left hlt, hentry], .refl entry, Or.inl⟩

theorem silenced_settle (attempts : List Attempt) (attempt : Nat) :
    Silenced attempts (settle attempts attempt unavailableResponse) := by
  intro other entry hentry
  obtain ⟨after, hafter, hlater⟩ := (settle_progress attempts attempt unavailableResponse).later other entry hentry
  refine ⟨after, hafter, hlater, fun hopen => ?_⟩
  by_cases hsame : attempt = other
  · subst hsame
    have hself : (settle attempts attempt unavailableResponse)[attempt]? = some _ := Heap.modify_self hentry
    rw [hafter, Option.some_inj] at hself
    rw [hself, hopen]
    exact Or.inr rfl
  · have hother : (settle attempts attempt unavailableResponse)[other]? = some entry := Heap.modify_other hentry hsame
    rw [hafter, Option.some_inj] at hother
    exact Or.inl (hother ▸ hopen)

theorem silenced_unanswered (attempts : List Attempt) (awaiting : OrderedMap JsString Nat) :
    Silenced attempts (unanswered attempts awaiting) := by
  rw [unanswered_eq]
  unfold settleEach
  induction awaiting.entries generalizing attempts with
  | nil => exact .refl attempts
  | cons entry rest ih => exact (silenced_settle attempts entry.2).trans (ih _)

theorem silenced_abandon (attempts : List Attempt) (attempt : Nat) :
    Silenced attempts (attempts.modify attempt fun found => { found with abandoned := true }) := by
  intro other entry hentry
  by_cases hsame : attempt = other
  · subst hsame
    exact ⟨_, Heap.modify_self hentry, ⟨rfl, rfl, fun _ h => h⟩, Or.inl⟩
  · exact ⟨entry, Heap.modify_other hentry hsame, .refl entry, Or.inl⟩

end

section

variable {config : TransportConfig} {before : List Attempt}

theorem release_silenced (s : Transport) (call : Nat) (final : Bool) (h : before = s.attempts) :
    Silenced before (s.release call final).attempts := by
  subst h
  unfold Transport.release
  split
  · exact .refl _
  · split
    · exact ((silenced_unanswered _ _).trans (silenced_unanswered _ _)).trans (silenced_unanswered _ _)
    · exact .refl _

theorem evictions_silenced (entries : List (RequestId × Nat)) (s : Transport) (h : before = s.attempts) :
    Silenced before (entries.foldl (fun s entry => s.evictConcluded entry.2) s).attempts := by
  subst h
  induction entries generalizing s with
  | nil => exact .refl _
  | cons entry rest ih =>
      refine Silenced.trans ?_ (ih (s.evictConcluded entry.2))
      unfold evictConcluded
      split
      · exact .refl _
      · exact release_silenced _ entry.2 true rfl

theorem keepConcluded_silenced (s : Transport) (call : Nat) (answer : JsonRpcFrame) (h : before = s.attempts) :
    Silenced before (s.keepConcluded call answer).attempts := by
  subst h
  unfold keepConcluded
  split
  · exact .refl _
  · exact evictions_silenced _ _ rfl

theorem endRound_attempts (s : Transport) (call : Nat) (token : JsString) : (s.endRound call token).attempts = s.attempts := by
  unfold endRound
  repeat' split
  all_goals rfl

theorem conclude_silenced (s : Transport) (call : Nat) (answer : JsonRpcFrame) (token : JsString) (inbound : Bool)
    (h : before = s.attempts) : Silenced before (s.conclude call answer token inbound).attempts := by
  subst h
  unfold conclude
  split
  · exact .refl _
  · split
    · exact endRound_attempts s call token ▸ .refl _
    · split
      · exact release_silenced _ call _ rfl
      · exact release_silenced _ call _ rfl

theorem finish_silenced (s : Transport) (call : Nat) (answer : JsonRpcFrame) (token : JsString) (h : before = s.attempts) :
    Silenced before (s.finish call answer token).attempts := by
  subst h
  unfold finish
  split
  · exact .refl _
  · rename_i found hcall
    refine Silenced.trans (silenced_unanswered s.attempts found.nextAwaiting) ?_
    dsimp only
    split
    · exact keepConcluded_silenced _ call answer rfl
    · exact conclude_silenced _ call answer token false rfl

theorem outbound_silenced (s : Transport) (frame : JsonRpcFrame) (token : JsString) :
    Silenced s.attempts (s.outbound config frame token).attempts := by
  unfold outbound
  split
  · exact .refl _
  · split
    · exact .refl _
    · split
      · exact .refl _
      · split
        · exact .refl _
        · split
          · exact .refl _
          · split
            · exact .refl _
            · split
              · exact .refl _
              · split
                · exact finish_silenced _ _ frame token rfl
                · exact release_silenced _ _ _ rfl

theorem connectionLost_silenced (s : Transport) : Silenced s.attempts s.connectionLost.attempts := by
  have hreleases (entries : List (RequestId × Nat)) (s : Transport) : Silenced s.attempts
      (entries.foldl (fun s entry =>
        (s.alter entry.2 fun found => { found with cancelled := true }).release entry.2 true) s).attempts := by
    induction entries generalizing s with
    | nil => exact .refl _
    | cons entry rest ih =>
        refine Silenced.trans ?_ (ih _)
        exact release_silenced _ entry.2 true rfl
  exact (hreleases _ s).trans (silenced_unanswered _ _)

theorem proceed_silenced (s : Transport) (call : Nat) (token : JsString) :
    Silenced s.attempts (s.proceed call token).attempts := by
  unfold proceed
  split
  · exact .refl _
  · split
    · exact conclude_silenced _ call _ token true rfl
    · split <;> exact .refl _

theorem cancel_silenced (s : Transport) (frame : JsonRpcFrame) : Silenced s.attempts (s.cancel frame).attempts := by
  unfold Transport.cancel
  split
  · exact .refl _
  · split
    · exact release_silenced _ _ true rfl
    · split
      · exact release_silenced _ _ true rfl
      · exact release_silenced _ _ true rfl

theorem sendAttempt_silenced (s : Transport) (call : Nat) (found : ToolCall) (event : ToolEvent) :
    Silenced s.attempts (s.sendAttempt call found event).attempts := by
  unfold sendAttempt
  split
  · exact .refl _
  · dsimp only
    split
    · exact silenced_append _ _
    · exact silenced_append _ _

theorem sendOutcome_attempts (s : Transport) (call : Nat) (found : ToolCall) (event : ToolEvent) :
    (s.sendOutcome call found event).attempts = s.attempts := by
  unfold sendOutcome
  split
  · rfl
  · split <;> rfl

theorem roundTimer_attempts (s : Transport) (call : Nat) (found : ToolCall) (token : JsString) :
    (s.roundTimer call found token).attempts = s.attempts := by
  unfold roundTimer
  split
  · rfl
  · exact endRound_attempts _ call token

end

section

variable {s s' : Transport} {call attempt : Nat} {found : ToolCall} {round : OpenRound} {entry entry' : Attempt}
  {token fresh : JsString} {frame : JsonRpcFrame} {id : RequestId} {response : Json}

theorem unavailable_refuses : ¬Accepts unavailableResponse := by
  have hstatus : Json.isText (unavailableResponse.get Fields.STATUS) Status.ACCEPT = false := by decide +kernel
  unfold Accepts
  rw [hstatus]
  exact Bool.false_ne_true

-- What reads as an accept is a valid response, as it was given.
theorem readResponse_accepts {value : Json} (h : Accepts (readResponse value)) :
    readResponse value = value ∧ attemptResponseSchema (some value) = none := by
  unfold readResponse at h ⊢
  by_cases hvalid : attemptResponseSchema (some value) = none
  · rw [if_pos hvalid]
    exact ⟨rfl, hvalid⟩
  · rw [if_neg hvalid] at h
    exact absurd h unavailable_refuses

theorem answerOf_accepts {responses : Members} {key : JsString × Nat} (h : Accepts (answerOf responses key)) :
    Json.lookup responses key.1 = some (answerOf responses key) ∧
      attemptResponseSchema (some (answerOf responses key)) = none := by
  unfold answerOf at h ⊢
  cases hlookup : Json.lookup responses key.1 with
  | none =>
      rw [hlookup] at h
      exact absurd h unavailable_refuses
  | some value =>
      rw [hlookup] at h
      obtain ⟨hsame, hvalid⟩ := readResponse_accepts h
      refine ⟨congrArg some hsame.symm, ?_⟩
      change attemptResponseSchema (some (readResponse value)) = none
      rw [hsame]
      exact hvalid

-- An accept is no silence.
theorem Silenced.accepts {before after : List Attempt} (h : Silenced before after) (hentry : before[attempt]? = some entry)
    (hafter : after[attempt]? = some entry') (hsettled : entry'.settlement = some response) (haccepts : Accepts response) :
    entry.settlement = some response := by
  obtain ⟨last, hlast, hlater, hopen⟩ := h attempt entry hentry
  obtain rfl := Option.some_inj.mp (hlast.symm.trans hafter)
  cases hbefore : entry.settlement with
  | some old =>
      have hkept := hlater.kept old hbefore
      rw [hsettled, Option.some_inj] at hkept
      rw [hkept]
  | none =>
      rcases hopen hbefore with hnone | hsilent
      · rw [hsettled] at hnone
        cases hnone
      · rw [hsettled, Option.some_inj] at hsilent
        exact absurd (hsilent ▸ haccepts) unavailable_refuses

-- The answers to a round: a retry on its token, in its call's session, that accepts the attempt.
structure RetryAccepts (s : Transport) (frame : JsonRpcFrame) (attempt : Nat) (entry : Attempt) (response : Json) : Prop where
  retry : ∃ id token round found, IsRetry frame id token ∧ s.openRound token = some (entry.call, round) ∧
    round.awaiting.get entry.event.id = some attempt ∧ s.calls[entry.call]? = some found ∧
      Json.lookup (s.responsesTo found frame) entry.event.id = some response
  valid : attemptResponseSchema (some response) = none

-- The answer to a message: the response under the id the message was sent with.
structure MessageAccepts (s : Transport) (frame : JsonRpcFrame) (attempt : Nat) (response : Json) : Prop where
  message : frame.method = none ∧ frame.error = none ∧ ∃ members, frame.result = some members ∧ response = .obj members
  pending : ∃ name, frame.id = some (.str name) ∧ s.pending.get name = some attempt
  valid : attemptResponseSchema (some response) = none

theorem takeRetry_accepts (hwired : Wired s) (hcarries : Carries s) (hretry : IsRetry frame id token)
    (hentry : s.attempts[attempt]? = some entry) (hopen : entry.settlement = none)
    (hafter : (s.takeRetry frame id token fresh).attempts[attempt]? = some entry')
    (hsettled : entry'.settlement = some response) (haccepts : Accepts response) :
    RetryAccepts s frame attempt entry response := by
  cases hround : s.openRound token with
  | none =>
      rw [takeRetry_refused hwired hround] at hafter
      have hkept := (Silenced.refl s.attempts).accepts hentry hafter hsettled haccepts
      rw [hopen] at hkept
      cases hkept
  | some both =>
      obtain ⟨call, round⟩ := both
      obtain ⟨-, ⟨found, hcall, hbears⟩, -⟩ := openRound_eq_some.mp hround
      obtain ⟨accepting, heq⟩ := @resume_eq s call round found hcall id frame
      have hlists := hcarries.lists call found hcall
      have hawaiting : roundAwaiting found = round.awaiting := by
        unfold roundAwaiting
        rw [hbears]
        rfl
      have hdistinct := hlists.distinct.2
      rw [hawaiting] at hdistinct
      rw [takeRetry_eq hround] at hafter
      have hattempts : (s.resume call round id frame).attempts =
          settleEach s.attempts (answerOf (s.responsesTo found frame)) round.awaiting.entries := by rw [heq]
      obtain ⟨middle, hmiddle, -⟩ := (settleEach_progress s.attempts (answerOf (s.responsesTo found frame))
        round.awaiting.entries).later attempt entry hentry
      rw [← hattempts] at hmiddle
      have hanswered := (proceed_silenced (s.resume call round id frame) call fresh).accepts hmiddle hafter hsettled haccepts
      rw [hattempts] at hmiddle
      by_cases hlisted : ∃ key ∈ round.awaiting.entries, key.2 = attempt
      · obtain ⟨⟨key, index⟩, hmem, hindex⟩ := hlisted
        obtain rfl : index = attempt := hindex
        have hget := (OrderedMap.mem_entries_iff hdistinct key index).mp hmem
        obtain ⟨own, hown, hcallOf, hid, -⟩ := hlists.sound key index (Or.inr (hawaiting ▸ hget))
        obtain rfl := Option.some_inj.mp (hown.symm.trans hentry)
        have hunique : ∀ other ∈ round.awaiting.entries, other.2 = index → other.1 = key := by
          rintro ⟨other, place⟩ hother hplace
          obtain rfl : place = index := hplace
          have hget' := (OrderedMap.mem_entries_iff hdistinct other _).mp hother
          obtain ⟨own', hown', -, hid', -⟩ := hlists.sound other place (Or.inr (hawaiting ▸ hget'))
          obtain rfl := Option.some_inj.mp (hown'.symm.trans hown)
          exact hid'.symm.trans hid
        have hat := @settleEach_at (answerOf (s.responsesTo found frame)) _ _ _ _ _ hmem hunique hdistinct hown
        obtain rfl := Option.some_inj.mp (hmiddle.symm.trans hat)
        have hresponse : answerOf (s.responsesTo found frame) (key, index) = response := by
          have hsame : own.settlement.settle (answerOf (s.responsesTo found frame) (key, index)) = some response := hanswered
          rw [hopen] at hsame
          exact Option.some_inj.mp hsame
        obtain ⟨hlookup, hvalid⟩ := answerOf_accepts (hresponse ▸ haccepts)
        rw [hresponse] at hlookup hvalid
        subst hid hcallOf
        exact ⟨⟨id, token, round, found, hretry, hround, hget, hcall, hlookup⟩, hvalid⟩
      · have hother := @settleEach_other (answerOf (s.responsesTo found frame)) round.awaiting.entries attempt s.attempts
          fun key hkey hsame => hlisted ⟨key, hkey, hsame⟩
        rw [hmiddle, hentry, Option.some_inj] at hother
        rw [hother, hopen] at hanswered
        cases hanswered

theorem takeAnswer_accepts {name : JsString} (hmethod : frame.method = none) (hid : frame.id = some (.str name))
    (hentry : s.attempts[attempt]? = some entry) (hopen : entry.settlement = none)
    (hafter : (s.takeAnswer frame name).attempts[attempt]? = some entry') (hsettled : entry'.settlement = some response)
    (haccepts : Accepts response) : MessageAccepts s frame attempt response := by
  have hquiet (hsame : entry' = entry) : False := by
    rw [hsame, hopen] at hsettled
    cases hsettled
  unfold takeAnswer at hafter
  cases hpending : s.pending.get name with
  | none =>
      rw [hpending] at hafter
      exact (hquiet (Option.some_inj.mp (hafter.symm.trans hentry))).elim
  | some other =>
      simp only [hpending] at hafter
      by_cases hsame : other = attempt
      · subst hsame
        have hanswer := Option.some_inj.mp (hafter.symm.trans (Heap.modify_self hentry))
        rw [hanswer] at hsettled
        simp only [hopen, Pending.settle, Option.none_or, Option.some_inj] at hsettled
        split at hsettled
        · rename_i members herror hresult
          obtain ⟨hread, hvalid⟩ := readResponse_accepts (hsettled ▸ haccepts)
          rw [hread] at hsettled
          subst hsettled
          exact ⟨⟨hmethod, herror, members, hresult, rfl⟩, ⟨name, hid, hpending⟩, hvalid⟩
        · exact absurd (hsettled ▸ haccepts) unavailable_refuses
      · exact (hquiet (Option.some_inj.mp (hafter.symm.trans (Heap.modify_other hentry hsame)))).elim

end

section

variable {config : TransportConfig} {s s' : Transport} {actions : List TransportAction} {action : TransportAction}
  {attempt : Nat} {entry entry' : Attempt} {response : Json}

-- The steps that receive nothing.
theorem TransportStep.silenced (hstep : TransportStep config s action s') (hquiet : ∀ frame, action ≠ .receives frame) :
    Silenced s.attempts s'.attempts := by
  cases hstep with
  | receives hturn htoken => exact absurd rfl (hquiet _)
  | negotiates hcall hresult =>
      obtain ⟨sessions, rfl⟩ := negotiate_eq hresult
      exact .refl _
  | attempts hcall hnegotiated hattempt => exact sendAttempt_silenced (s.note _ _) _ _ _
  | records hcall hnegotiated => exact sendOutcome_attempts (s.note _ _) _ _ _ ▸ .refl _
  | sends htoken => exact outbound_silenced s _ _
  | ends hcall hscheduled htoken => exact roundTimer_attempts s _ _ _ ▸ .refl _
  | expires hattempt hopen => exact silenced_abandon _ _
  | givesUp hattempt habandoned => exact silenced_settle _ _
  | fails hattempt hpending => exact silenced_abandon _ _
  | resumes hsuspended => exact keepConcluded_silenced _ _ _ rfl
  | goesOn hhandling hnone => exact .refl _
  | forgets hkey => exact .refl _
  | disconnects => exact connectionLost_silenced s

-- What an inbound frame is to the attempts: a retry, the answer to a message, or nothing.
theorem inbound_answers (s : Transport) (frame : JsonRpcFrame) (token : JsString) :
    Silenced s.attempts (s.inbound frame token).attempts ∨
      (∃ id state, IsRetry frame id state ∧ s.inbound frame token = s.takeRetry frame id state token) ∨
      ∃ name, frame.method = none ∧ frame.id = some (.str name) ∧ s.inbound frame token = s.takeAnswer frame name := by
  unfold inbound
  cases hmethod : frame.method with
  | some method =>
      cases hid : frame.id with
      | some id =>
          dsimp only
          by_cases hhandshake : method = INITIALIZE_METHOD ∨ method = DISCOVER_METHOD
          · rw [if_pos hhandshake]
            exact Or.inl (.refl _)
          · rw [if_neg hhandshake]
            by_cases hcall : method = TOOLS_CALL_METHOD
            · rw [if_pos hcall]
              cases hstate : roundToken frame with
              | some state => exact Or.inr (Or.inl ⟨id, state, ⟨hcall ▸ hmethod, hid, hstate⟩, rfl⟩)
              | none => exact Or.inl (.refl _)
            · rw [if_neg hcall]
              exact Or.inl (.refl _)
      | none =>
          dsimp only
          split
          · exact Or.inl (cancel_silenced s frame)
          · exact Or.inl (.refl _)
  | none =>
      cases hid : frame.id with
      | some id =>
          cases id with
          | str text =>
              by_cases hprefix : startsWith text ID_PREFIX = true
              · refine Or.inr (Or.inr ⟨text, rfl, rfl, ?_⟩)
                simp [ownId, hprefix]
              · simp only [ownId, hprefix, Bool.false_eq_true, if_false]
                exact Or.inl (.refl _)
          | num value => exact Or.inl (.refl _)
      | none => exact Or.inl (.refl _)

-- Timeouts, failed sends, cancellations, ended calls, lost connections and whatever else a peer
-- sends settle an attempt with nothing that lets its operation run. An accept is one the host
-- gave: in the retry of the round that carried the attempt, under its id and in its call's
-- session, or as the answer to its message.
theorem accept_from_host (hrun : TransportRun config actions s) (hstep : TransportStep config s action s')
    (hentry : s.attempts[attempt]? = some entry) (hopen : entry.settlement = none)
    (hafter : s'.attempts[attempt]? = some entry') (hsettled : entry'.settlement = some response)
    (haccepts : Accepts response) :
    ∃ frame, action = .receives frame ∧
      (RetryAccepts s frame attempt entry response ∨ MessageAccepts s frame attempt response) := by
  have hquiet (hsilenced : Silenced s.attempts s'.attempts) : False := by
    have hkept := hsilenced.accepts hentry hafter hsettled haccepts
    rw [hopen] at hkept
    cases hkept
  by_cases hreceives : ∃ frame, action = .receives frame
  · obtain ⟨frame, rfl⟩ := hreceives
    refine ⟨frame, rfl, ?_⟩
    cases hstep with
    | @receives _ fresh hturn htoken =>
        rcases inbound_answers s frame fresh with hsilent | ⟨id, state, hretry, hsame⟩ | ⟨name, hmethod, hid, hsame⟩
        · exact (hquiet hsilent).elim
        · rw [hsame] at hafter
          exact Or.inl (takeRetry_accepts hrun.sound.wired hrun.carries hretry hentry hopen hafter hsettled haccepts)
        · rw [hsame] at hafter
          exact Or.inr (takeAnswer_accepts hmethod hid hentry hopen hafter hsettled haccepts)
  · exact (hquiet (hstep.silenced fun frame hframe => hreceives ⟨frame, hframe⟩)).elim

theorem accept_from_host_retry : ∃ (s s' : Transport) (entry : Attempt) (response : Json),
    Reference.play Reference.seam (Reference.auditedCall.take 4) = some s ∧ s.attempts[0]? = some entry ∧
      RetryAccepts s (Reference.retryOf (.num (.ofNat 2))
        (mintRoundToken Reference.seam.instanceId (Reference.draw 0)) Reference.EVENT_1) 0 entry response ∧
      (s'.attempts[0]?).bind Attempt.settlement = some response := by
  have htest : (Reference.play Reference.seam (Reference.auditedCall.take 4)).any (fun s =>
      (Reference.take Reference.seam s (Reference.draw 1) (.receives (Reference.retryOf (.num (.ofNat 2))
        (mintRoundToken Reference.seam.instanceId (Reference.draw 0)) Reference.EVENT_1))).any fun s' =>
          (s.attempts[0]?).any (fun entry => entry.settlement.isNone) &&
            ((s'.attempts[0]?).bind Attempt.settlement).any fun response =>
              Json.isText (response.get Fields.STATUS) Status.ACCEPT) = true := by
    decide +kernel
  obtain ⟨s, s', hplay, hrun, hstep, hstate⟩ := Reference.of_take htest
  simp only [Bool.and_eq_true] at hstate
  obtain ⟨entry, hentry, hopen⟩ := (Option.any_eq_true ..).mp hstate.1
  obtain ⟨response, hresponse, haccepts⟩ := (Option.any_eq_true ..).mp hstate.2
  obtain ⟨entry', hafter, hsettled⟩ := Option.bind_eq_some_iff.mp hresponse
  obtain ⟨frame, hframe, hhost⟩ := accept_from_host hrun hstep hentry (Option.isNone_iff_eq_none.mp hopen) hafter hsettled
    haccepts
  obtain rfl := TransportAction.receives.inj hframe
  refine ⟨s, s', entry, response, hplay, hentry, ?_, hresponse⟩
  rcases hhost with hretry | hmessage
  · exact hretry
  · cases hmessage.message.1

end

end AuditableMcp.Mcp
