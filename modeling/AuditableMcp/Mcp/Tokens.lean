import Mathlib.Logic.Relation
import AuditableMcp.Mcp.Carriers

-- A round token is good for one retry, of the call it was minted for.
namespace AuditableMcp.Mcp

open Transport

-- Some steps later.
def Transport.Later (config : TransportConfig) : Transport → Transport → Prop :=
  Relation.ReflTransGen fun s s' => ∃ action, TransportStep config s action s'

-- The token was minted, and no call's round bears it.
structure Spent (token : JsString) (s : Transport) : Prop where
  minted : token ∈ s.minted
  closed : ∀ (call : Nat) (found : ToolCall) (round : OpenRound), s.calls[call]? = some found →
    found.round = some round → round.token ≠ token

section

variable {config : TransportConfig} {s s' s'' : Transport} {call : Nat} {found : ToolCall} {token : JsString}
  {change : ToolCall → ToolCall}

theorem spent_of_openRound (hwired : Wired s) (hminted : token ∈ s.minted) (hnone : s.openRound token = none) :
    Spent token s := by
  refine ⟨hminted, fun call found round hcall hround htoken => ?_⟩
  have hget := (hwired.rounds token call).mpr ⟨found, round, hcall, hround, htoken⟩
  rw [hwired.openRound_none.mp hnone] at hget
  cases hget

theorem Spent.openRound (h : Spent token s) : s.openRound token = none := by
  cases hopen : s.openRound token with
  | none => rfl
  | some entry =>
      obtain ⟨call, round⟩ := entry
      obtain ⟨-, ⟨found, hcall, hround⟩, htoken⟩ := openRound_eq_some.mp hopen
      exact absurd htoken (h.closed call found round hcall hround)

-- A change of one call that opens no round.
theorem Spent.update (h : Spent token s) (hcalls : s'.calls = s.calls.modify call change) (hminted : s'.minted = s.minted)
    (hround : ∀ before round, (change before).round = some round → before.round = some round) : Spent token s' := by
  refine ⟨hminted ▸ h.minted, fun other after round hafter hbears => ?_⟩
  rw [hcalls] at hafter
  obtain ⟨before, hbefore, rfl⟩ := Heap.getElem?_modify_iff.mp hafter
  by_cases hsame : call = other
  · rw [if_pos hsame] at hbears
    exact h.closed other before round hbefore (hround before round hbears)
  · rw [if_neg hsame] at hbears
    exact h.closed other before round hbefore hbears

theorem Spent.congr (h : Spent token s) (hcalls : s'.calls = s.calls) (hminted : s'.minted = s.minted) : Spent token s' :=
  ⟨hminted ▸ h.minted, hcalls ▸ h.closed⟩

theorem Move.spent (hmove : Move config s s') (h : Spent token s) : Spent token s' := by
  cases hmove with
  | aside haside => exact h.congr haside.calls haside.minted
  | opens frame id =>
      refine ⟨h.minted, fun call found round hfound hround => ?_⟩
      rcases Heap.getElem?_append_iff.mp hfound with hold | ⟨-, rfl⟩
      · exact h.closed call found round hold hround
      · have hnone : (s.opened frame id).1.round = none := by
          unfold opened
          cases issuedSession frame <;> rfl
        rw [hnone] at hround
        cases hround
  | negotiates hcall hresult =>
      obtain ⟨sessions, rfl⟩ := negotiate_eq hresult
      exact h.update rfl rfl fun _ _ hround => hround
  | notes event hcall hlost => exact h.update rfl rfl fun _ _ hround => hround
  | waits hcall hnegotiated hattempt hmodern hfinished hcancelled =>
      rw [waits_eq hcall hmodern hfinished hcancelled]
      exact h.update rfl rfl fun _ _ hround => hround
  | buffers hcall hnegotiated hmodern hfinished hcancelled =>
      rw [buffers_eq hcall hmodern hfinished hcancelled]
      exact h.update rfl rfl fun _ _ hround => hround
  | tells event frame hcall hnegotiated => exact h.congr rfl rfl
  | asks event hcall hmodern => exact h.congr rfl rfl
  | @endsRound call found requestId fresh scheduled hcall hopen hround hbuffered hfresh htracked =>
      refine ⟨List.mem_append_left _ h.minted, fun other after round hafter hbears => ?_⟩
      obtain ⟨before, hbefore, rfl⟩ := Heap.getElem?_modify_iff.mp hafter
      by_cases hsame : call = other
      · rw [if_pos hsame] at hbears
        obtain rfl := Option.some_inj.mp hbears
        intro htoken
        have hsame : fresh = token := htoken
        exact hfresh (hsame ▸ h.minted)
      · rw [if_neg hsame] at hbears
        exact h.closed other before round hbefore hbears
  | unschedules hcall hidle => exact h.update rfl rfl fun _ _ hround => hround
  | resumes id frame hopen =>
      obtain ⟨-, ⟨before, hcall, -⟩, -⟩ := openRound_eq_some.mp hopen
      obtain ⟨accepting, heq⟩ := resumes_eq hcall id frame
      rw [heq]
      refine h.update rfl rfl fun _ _ hround => ?_
      cases hround
  | finishes answer hcall hfinished => exact h.update rfl rfl fun _ _ hround => hround
  | concludes answer frame hcall hfinished hcarries hanswer hsame => exact h.update rfl rfl fun _ _ hround => hround
  | suspends answer inbound hcall hfinished hanswer => exact h.congr rfl rfl
  | releases final hcall htracked hfinished =>
      rw [release_eq hcall htracked]
      refine h.update rfl rfl fun _ _ hround => ?_
      cases hround
  | cancels call =>
      cases hcall : s.calls[call]? with
      | none =>
          rw [cancel_none hcall]
          exact h
      | some found =>
          by_cases htracked : s.tracked.get found.originalId = some call
          · rw [cancel_eq hcall htracked]
            refine h.update rfl rfl fun _ _ hround => ?_
            cases hround
          · rw [cancel_untracked hcall htracked]
            exact h.update rfl rfl fun _ _ hround => hround
  | holds held hcall hheld => exact h.update rfl rfl fun _ _ hround => hround
  | settles hprogress => exact h.congr rfl rfl
  | dropsAll hnone => exact h.congr rfl rfl

theorem TransportStep.sound {action : TransportAction} (hstep : TransportStep config s action s') (h : Sound s) :
    Sound s' := (hstep.moves h.wired h.anchored h.concluding).sound h

theorem Transport.Later.sound (hlater : Transport.Later config s s') (h : Sound s) : Sound s' := by
  induction hlater with
  | refl => exact h
  | tail _ hstep ih =>
      obtain ⟨action, hstep⟩ := hstep
      exact hstep.sound ih

-- Once spent, a token stays so.
theorem Transport.Later.spent (hlater : Transport.Later config s s') (hsound : Sound s) (h : Spent token s) :
    Spent token s' := by
  induction hlater with
  | refl => exact h
  | tail hbefore hstep ih =>
      obtain ⟨action, hstep⟩ := hstep
      have hsound' := Transport.Later.sound hbefore hsound
      exact (hstep.moves hsound'.wired hsound'.anchored hsound'.concluding).keeps (fun _ _ hs hmove => hmove.spent hs) ih

end

-- A `tools/call` under the reserved prefix.
structure IsRetry (frame : JsonRpcFrame) (id : RequestId) (token : JsString) : Prop where
  method : frame.method = some TOOLS_CALL_METHOD
  id : frame.id = some id
  state : roundToken frame = some token

section

variable {config : TransportConfig} {s s' : Transport} {call : Nat} {found : ToolCall} {token fresh : JsString}
  {frame : JsonRpcFrame} {id : RequestId}

theorem inbound_retry (h : IsRetry frame id token) (s : Transport) (fresh : JsString) :
    s.inbound frame fresh = s.takeRetry frame id token fresh := by
  have hinitialize : TOOLS_CALL_METHOD ≠ INITIALIZE_METHOD := by decide
  have hdiscover : TOOLS_CALL_METHOD ≠ DISCOVER_METHOD := by decide
  unfold inbound
  simp [h.method, h.id, h.state, hinitialize, hdiscover]

-- A retry whose token names no open round is refused, and nothing else comes of it.
theorem takeRetry_refused (hwired : Wired s) (hnone : s.openRound token = none) :
    s.takeRetry frame id token fresh = { s.write (.refusal (refusal id)) with handling := true } := by
  unfold takeRetry
  simp only [hnone]
  rw [OrderedMap.delete_of_get_none (hwired.openRound_none.mp hnone)]
  rfl

end

-- What changes one call and settles only attempts of that call.
structure Only (call : Nat) (s s' : Transport) : Prop where
  calls : ∀ other, call ≠ other → s'.calls[other]? = s.calls[other]?
  attempts : ∀ (attempt : Nat) (entry : Attempt), s.attempts[attempt]? = some entry → entry.call ≠ call →
    s'.attempts[attempt]? = some entry
  progress : Progress s.attempts s'.attempts

section

variable {s s' s'' : Transport} {call : Nat} {found : ToolCall} {change : ToolCall → ToolCall}

theorem Only.trans (h : Only call s s') (h' : Only call s' s'') : Only call s s'' :=
  ⟨fun other hne => (h'.calls other hne).trans (h.calls other hne),
    fun attempt entry hentry hne => h'.attempts attempt entry (h.attempts attempt entry hentry hne) hne,
    h.progress.trans h'.progress⟩

theorem only_modify (hcalls : s'.calls = s.calls.modify call change) (hattempts : s'.attempts = s.attempts) :
    Only call s s' := by
  refine ⟨fun other hne => ?_, fun attempt entry hentry _ => hattempts ▸ hentry, hattempts ▸ .refl _⟩
  rw [hcalls, List.getElem?_modify_ne _ _ hne]

theorem only_same (hcalls : s'.calls = s.calls) (hattempts : s'.attempts = s.attempts) : Only call s s' :=
  ⟨fun _ _ => by rw [hcalls], fun _ _ hentry _ => hattempts ▸ hentry, hattempts ▸ .refl _⟩

theorem unanswered_other {attempts : List Attempt} {awaiting : OrderedMap JsString Nat} {attempt : Nat} {entry : Attempt}
    (hentry : attempts[attempt]? = some entry) (hnot : ∀ other ∈ awaiting.entries, other.2 ≠ attempt) :
    (unanswered attempts awaiting)[attempt]? = some entry := by
  rw [unanswered_eq, settleEach_other hnot, hentry]

-- The attempts a call lists are its own.
theorem ToolCall.Lists.own {attempts : List Attempt} (h : found.Lists attempts call) {attempt : Nat} {entry : Attempt}
    (hentry : attempts[attempt]? = some entry) (hne : entry.call ≠ call) :
    (∀ other ∈ found.nextAwaiting.entries, other.2 ≠ attempt) ∧
      ∀ other ∈ (roundAwaiting found).entries, other.2 ≠ attempt := by
  have hown {id : JsString} (hlisted : found.nextAwaiting.get id = some attempt ∨
      (roundAwaiting found).get id = some attempt) : False := by
    obtain ⟨entry', hentry', hcall, -⟩ := h.sound id attempt hlisted
    rw [hentry, Option.some_inj] at hentry'
    exact hne (hentry' ▸ hcall)
  constructor
  · rintro ⟨id, other⟩ hmem rfl
    exact hown (Or.inl ((OrderedMap.mem_entries_iff h.distinct.1 id _).mp hmem))
  · rintro ⟨id, other⟩ hmem rfl
    exact hown (Or.inr ((OrderedMap.mem_entries_iff h.distinct.2 id _).mp hmem))

theorem release_only (hcall : s.calls[call]? = some found) (hlists : found.Lists s.attempts call) (final : Bool) :
    Only call s (s.release call final) := by
  by_cases htracked : s.tracked.get found.originalId = some call
  · rw [release_eq hcall htracked]
    refine ⟨fun other hne => List.getElem?_modify_ne _ _ hne, fun attempt entry hentry hne => ?_,
      release_progress s call found⟩
    obtain ⟨hnext, hround⟩ := hlists.own hentry hne
    refine unanswered_other (unanswered_other (unanswered_other hentry hround) hnext) fun other hmem hsame => ?_
    obtain ⟨-, hpending⟩ := List.mem_filter.mp hmem
    rw [hsame, hentry] at hpending
    simp only [Option.any_some, decide_eq_true_eq] at hpending
    exact hne hpending
  · have hsame : s.release call final = s := by
      unfold Transport.release
      simp only [hcall]
      exact if_neg htracked
    rw [hsame]
    exact only_same rfl rfl

theorem endRound_only (s : Transport) (call : Nat) (token : JsString) : Only call s (s.endRound call token) := by
  unfold endRound
  split
  · exact only_same rfl rfl
  · split
    · exact only_same rfl rfl
    · split
      · exact only_same rfl rfl
      · exact only_modify rfl rfl

theorem conclude_only (hcall : s.calls[call]? = some found) (hlists : found.Lists s.attempts call)
    (answer : JsonRpcFrame) (token : JsString) (inbound : Bool) : Only call s (s.conclude call answer token inbound) := by
  have hemptied : (s.alter call fun found => { found with buffered := [] }).calls[call]? =
      some { found with buffered := [] } := Heap.modify_self hcall
  have hlists' : ({ found with buffered := [] } : ToolCall).Lists s.attempts call :=
    ⟨hlists.distinct, hlists.sound, hlists.apart⟩
  unfold conclude
  simp only [hcall]
  split
  · exact (endRound_only s call token).trans (only_same rfl rfl)
  · have hfirst : Only call s (s.alter call fun found => { found with buffered := [] }) := only_modify rfl rfl
    apply hfirst.trans
    cases found.currentId with
    | none => exact release_only hemptied hlists' _
    | some requestId =>
        have hwritten : Only call (s.alter call fun found => { found with buffered := [] })
            ((s.alter call fun found => { found with buffered := [] }).write
              (.final call answer found.buffered (s.finalFrame found requestId answer))) := only_same rfl rfl
        exact hwritten.trans (release_only (s := (s.alter call fun found => { found with buffered := [] }).write _)
          hemptied hlists' _)

end

section

variable {config : TransportConfig} {s s' : Transport} {call : Nat} {found : ToolCall} {round : OpenRound}
  {token fresh : JsString} {frame : JsonRpcFrame} {id : RequestId}

-- The retry that an open round's token names.
theorem takeRetry_eq (hopen : s.openRound token = some (call, round)) :
    s.takeRetry frame id token fresh = (s.resume call round id frame).proceed call fresh := by
  unfold takeRetry
  simp only [hopen]

-- No call bears the token of the round that a retry ended.
theorem resumes_spent (hwired : Wired s) (hopen : s.openRound token = some (call, round)) :
    Spent token ((s.resume call round id frame).reschedule call) := by
  obtain ⟨hget, ⟨found, hcall, hround⟩, htoken⟩ := openRound_eq_some.mp hopen
  obtain ⟨accepting, heq⟩ := @resumes_eq s call round found hcall id frame
  rw [heq]
  refine ⟨htoken ▸ (hwired.calls call found hcall).minted round hround, fun other after open' hafter hbears hsame => ?_⟩
  obtain ⟨before, hbefore, rfl⟩ := Heap.getElem?_modify_iff.mp hafter
  by_cases hown : call = other
  · rw [if_pos hown] at hbears
    cases hbears
  · rw [if_neg hown] at hbears
    have hother := (hwired.rounds token other).mpr ⟨before, open', hbefore, hbears, hsame⟩
    exact hown (Option.some_inj.mp (hget.symm.trans hother))

theorem proceed_only (hcall : s.calls[call]? = some found) (hlists : found.Lists s.attempts call) (fresh : JsString) :
    Only call s (s.proceed call fresh) := by
  unfold proceed
  simp only [hcall]
  cases found.held with
  | none =>
      dsimp only
      split
      · exact only_modify rfl rfl
      · exact only_same rfl rfl
  | some held =>
      have hheld : (s.takeHeld call found).calls[call]? = some { found with held := none } := Heap.modify_self hcall
      have htaken : Only call s (s.takeHeld call found) := only_modify rfl rfl
      exact htaken.trans (conclude_only (s := s.takeHeld call found) hheld ⟨hlists.distinct, hlists.sound, hlists.apart⟩
        held fresh true)

-- While the handler runs, its frame is not held.
theorem proceed_running (hcall : s.calls[call]? = some found) (hheld : found.held = none) (fresh : JsString) :
    (s.proceed call fresh).attempts = s.attempts := by
  unfold proceed
  simp only [hcall, hheld]
  split <;> rfl

-- What a retry comes to for the attempts and the calls.
theorem takeRetry_answers (hwired : Wired s) (hcarries : Carries s) (hopen : s.openRound token = some (call, round))
    (hcall : s.calls[call]? = some found) :
    (∀ other, call ≠ other → (s.takeRetry frame id token fresh).calls[other]? = s.calls[other]?) ∧
      ∀ (attempt : Nat) (entry : Attempt), s.attempts[attempt]? = some entry →
        (round.awaiting.get entry.event.id = some attempt → ∃ entry',
          (s.takeRetry frame id token fresh).attempts[attempt]? = some entry' ∧ entry'.settlement =
            entry.settlement.settle (answerOf (s.responsesTo found frame) (entry.event.id, attempt))) ∧
        (round.awaiting.get entry.event.id ≠ some attempt → entry.call ≠ call ∨ found.finished = false →
          (s.takeRetry frame id token fresh).attempts[attempt]? = some entry) := by
  obtain ⟨-, ⟨found', hcall', hround⟩, -⟩ := openRound_eq_some.mp hopen
  obtain rfl := Option.some_inj.mp (hcall.symm.trans hcall')
  obtain ⟨accepting, heq⟩ := @resume_eq s call round found hcall id frame
  have hlists := hcarries.lists call found hcall
  have hawaiting : roundAwaiting found = round.awaiting := by
    unfold roundAwaiting
    rw [hround]
    rfl
  have hdistinct := hlists.distinct.2
  rw [hawaiting] at hdistinct
  have hresumed : (s.resume call round id frame).calls[call]? =
      some { found with
        round := none, ids := found.ids.insert id, currentId := some id, accepted := accepting found.accepted } := by
    rw [heq]
    exact Heap.modify_self hcall
  have hattempts : (s.resume call round id frame).attempts =
      settleEach s.attempts (answerOf (s.responsesTo found frame)) round.awaiting.entries := by rw [heq]
  have hlists' : ({ found with
      round := none, ids := found.ids.insert id, currentId := some id, accepted := accepting found.accepted } :
        ToolCall).Lists (s.resume call round id frame).attempts call := by
    rw [hattempts]
    refine ToolCall.Lists.progress ?_ (settleEach_progress _ _ _)
    exact hlists.fewer (Or.inl rfl) (Or.inr rfl)
  have honly := proceed_only hresumed hlists' fresh
  rw [takeRetry_eq hopen]
  refine ⟨fun other hne => ?_, fun attempt entry hentry => ⟨fun hlisted => ?_, fun hlisted hapart => ?_⟩⟩
  · rw [honly.calls other hne, heq, List.getElem?_modify_ne _ _ hne]
  · have hmem := OrderedMap.mem_of_get hlisted
    have hunique : ∀ other ∈ round.awaiting.entries, other.2 = attempt → other.1 = entry.event.id := by
      rintro ⟨other, index⟩ hother hsame
      obtain rfl : index = attempt := hsame
      have hget := (OrderedMap.mem_entries_iff hdistinct other _).mp hother
      obtain ⟨entry', hentry', -, hid, -⟩ := hlists.sound other _ (Or.inr (hawaiting ▸ hget))
      rw [hentry, Option.some_inj] at hentry'
      exact hentry' ▸ hid.symm
    have hanswered := @settleEach_at (answerOf (s.responsesTo found frame)) _ _ _ _ _ hmem hunique hdistinct hentry
    rw [← hattempts] at hanswered
    obtain ⟨later, hlater, hkept⟩ := honly.progress.later attempt _ hanswered
    obtain ⟨response, hresponse⟩ := Option.isSome_iff_exists.mp (Pending.settle_isSome entry.settlement
      (answerOf (s.responsesTo found frame) (entry.event.id, attempt)))
    exact ⟨later, hlater, (hkept.kept response hresponse).trans hresponse.symm⟩
  · have hnot : ∀ other ∈ round.awaiting.entries, other.2 ≠ attempt := by
      rintro ⟨other, index⟩ hother hsame
      obtain rfl : index = attempt := hsame
      have hget := (OrderedMap.mem_entries_iff hdistinct other _).mp hother
      obtain ⟨entry', hentry', -, hid, -⟩ := hlists.sound other _ (Or.inr (hawaiting ▸ hget))
      rw [hentry, Option.some_inj] at hentry'
      subst hentry'
      exact hlisted (hid ▸ hget)
    have hkept : (s.resume call round id frame).attempts[attempt]? = some entry := by
      rw [hattempts, settleEach_other hnot, hentry]
    rcases hapart with hne | hrunning
    · exact honly.attempts attempt entry hkept hne
    · have hheld : found.held = none := by
        cases hheld : found.held with
        | none => rfl
        | some held =>
            have hends := ((hwired.calls call found hcall).held held hheld).1
            rw [hrunning] at hends
            cases hends
      rw [proceed_running hresumed hheld]
      exact hkept

end

section

variable {config : TransportConfig} {s s' s'' : Transport} {actions : List TransportAction} {call : Nat}
  {found : ToolCall} {round : OpenRound} {token : JsString} {frame : JsonRpcFrame} {id : RequestId}

theorem retryOf_isRetry (id : RequestId) (token attempt : JsString) (h : startsWith token ROUND_TOKEN_PREFIX = true) :
    IsRetry (Reference.retryOf id token attempt) id token :=
  ⟨rfl, rfl, by simp [roundToken, Reference.retryOf, Reference.toolsCall, JsonRpcFrame.param, Json.lookup, h]⟩

-- A retry on the token of an open round answers the attempts that the round carried, each once
-- and only where nothing has answered it before, touches no other call, and leaves what its
-- handler emitted meanwhile for a round to come. From then on the token names no open round.
theorem retry_answers_own_round (hrun : TransportRun config actions s) (hretry : IsRetry frame id token)
    (hopen : s.openRound token = some (call, round)) (hcall : s.calls[call]? = some found)
    (hstep : TransportStep config s (.receives frame) s') :
    (∀ later, Transport.Later config s' later → later.openRound token = none) ∧
      (∀ other, call ≠ other → s'.calls[other]? = s.calls[other]?) ∧
      ∀ (attempt : Nat) (entry : Attempt), s.attempts[attempt]? = some entry →
        (round.awaiting.get entry.event.id = some attempt → ∃ entry', s'.attempts[attempt]? = some entry' ∧
          entry'.settlement = entry.settlement.settle (answerOf (s.responsesTo found frame) (entry.event.id, attempt))) ∧
        (round.awaiting.get entry.event.id ≠ some attempt → entry.call ≠ call ∨ found.finished = false →
          s'.attempts[attempt]? = some entry) := by
  have hsound := hrun.sound
  have hsound' := hstep.sound hsound
  cases hstep with
  | @receives _ fresh hturn htoken =>
      rw [inbound_retry hretry] at hsound' ⊢
      obtain ⟨hothers, hattempts⟩ := @takeRetry_answers s call found round token fresh frame id hsound.wired hrun.carries
        hopen hcall
      refine ⟨fun later hlater => ?_, hothers, hattempts⟩
      have hspent : Spent token (s.takeRetry frame id token fresh) := by
        rw [takeRetry_eq hopen]
        exact (proceed_moves hsound.wired hsound.anchored htoken.fresh frame id hopen).keeps
          (fun _ _ hs (hmove : Move config _ _) => hmove.spent hs) (resumes_spent hsound.wired hopen)
      exact (Transport.Later.spent hlater hsound' hspent).openRound

theorem retry_answers_own_round_once : ∃ s s', Reference.play Reference.seam (Reference.auditedCall.take 4) = some s ∧
    (s.openRound (mintRoundToken Reference.seam.instanceId (Reference.draw 0))).isSome = true ∧
    ∀ later, Transport.Later Reference.seam s' later →
      later.openRound (mintRoundToken Reference.seam.instanceId (Reference.draw 0)) = none := by
  have htest : (Reference.play Reference.seam (Reference.auditedCall.take 4)).any (fun s =>
      (Reference.take Reference.seam s (Reference.draw 1) (.receives (Reference.retryOf (.num (.ofNat 2))
        (mintRoundToken Reference.seam.instanceId (Reference.draw 0)) Reference.EVENT_1))).any fun _ =>
          (s.openRound (mintRoundToken Reference.seam.instanceId (Reference.draw 0))).isSome) = true := by
    decide +kernel
  obtain ⟨s, s', hplay, hrun, hstep, hopen⟩ := Reference.of_take htest
  refine ⟨s, s', hplay, hopen, ?_⟩
  obtain ⟨⟨call, round⟩, hround⟩ := Option.isSome_iff_exists.mp hopen
  obtain ⟨-, ⟨found, hcall, -⟩, -⟩ := openRound_eq_some.mp hround
  exact (retry_answers_own_round hrun (retryOf_isRetry _ _ _ (mintRoundToken_startsWith _ _)) hround hcall
    hstep).1

-- Any later retry on it is refused, and the refusal is all that comes of it.
theorem spent_token_refused (hrun : TransportRun config actions s) (hminted : token ∈ s.minted)
    (hspent : s.openRound token = none) (hlater : Transport.Later config s s') (hretry : IsRetry frame id token)
    (hstep : TransportStep config s' (.receives frame) s'') :
    s'' = { s'.write (.refusal (refusal id)) with handling := true } := by
  have hsound := hrun.sound
  have hstill := Transport.Later.spent hlater hsound (spent_of_openRound hsound.wired hminted hspent)
  cases hstep with
  | receives hturn htoken =>
      rw [inbound_retry hretry]
      exact takeRetry_refused (Transport.Later.sound hlater hsound).wired hstill.openRound

theorem spent_token_refused_again : ∃ s s' : Transport, Reference.play Reference.seam (Reference.auditedCall.take 5) = some s ∧
    s'.written = s.written ++ [.refusal (refusal (.num (.ofNat 3)))] := by
  have htest : (Reference.play Reference.seam (Reference.auditedCall.take 5)).any (fun s =>
      (Reference.take Reference.seam s (Reference.draw 1) (.receives (Reference.retryOf (.num (.ofNat 3))
        (mintRoundToken Reference.seam.instanceId (Reference.draw 0)) Reference.EVENT_1))).any fun _ =>
          decide (mintRoundToken Reference.seam.instanceId (Reference.draw 0) ∈ s.minted) &&
            (s.openRound (mintRoundToken Reference.seam.instanceId (Reference.draw 0))).isNone) = true := by
    decide +kernel
  obtain ⟨s, s', hplay, hrun, hstep, hstate⟩ := Reference.of_take htest
  simp only [Bool.and_eq_true, decide_eq_true_eq, Option.isNone_iff_eq_none] at hstate
  obtain ⟨hminted, hnone⟩ := hstate
  refine ⟨s, s', hplay, ?_⟩
  rw [spent_token_refused hrun hminted hnone .refl
    (retryOf_isRetry _ _ _ (mintRoundToken_startsWith _ _)) hstep]
  rfl

end

end AuditableMcp.Mcp
