import AuditableMcp.Mcp.HostSteps
import AuditableMcp.Reference.Receivers

-- What the host's seam lets through: how many retries go to the tool and whose answers they carry, and what the
-- client's session is shown.
namespace AuditableMcp.Mcp.HostSeam

open Receiver

def Sent.retries (call : Nat) : Sent → Bool
  | .retry other _ => other = call
  | _ => false

def Receiver.retries (s : Receiver) (call : Nat) : Nat := s.sent.countP (Sent.retries call)

-- The answers that a frame carries to the tool come from the endpoint, in the session they are for.
def Sent.Honest (s : Receiver) : Sent → Prop
  | .retry call frame => ∃ (found : HostCall) (params : Members) (state : JsString) (responses : Members),
      s.heap[call]? = some found ∧ frame.params = some (retryParams params state found.sessionId responses) ∧
        ∀ entry ∈ responses, s.Given found.sessionId entry
  | .resumed call frame => ∃ (found : HostCall) (params responses : Members), s.heap[call]? = some found ∧
      frame.params = some (Receiver.withAudit params (auditMember found.sessionId responses)) ∧
        ∀ entry ∈ responses, s.Given found.sessionId entry
  | .answer sessionId event response frame => s.Replied sessionId event response ∧ ∃ id, frame = responseFrame id response
  | _ => True

-- A round that is processed for its answers leaves room for its retry.
structure Paced (s : Receiver) : Prop where
  bounded : ∀ (call : Nat) (found : HostCall), s.heap[call]? = some found →
    s.retries call ≤ found.rounds ∧ s.retries call ≤ MAX_ROUNDS_PER_CALL
  pending : ∀ (sessionId : JsString) (work : RoundWork) (found : HostCall),
    (s.chains sessionId).doing = some (.processing work) → work.decide = true → s.heap[work.call]? = some found →
      s.retries work.call + 1 ≤ found.rounds ∧ found.rounds ≤ MAX_ROUNDS_PER_CALL
  strange : ∀ call : Nat, s.heap[call]? = none → s.retries call = 0

section

variable {s s' : Receiver} {call : Nat} {found : HostCall} {change : HostCall → HostCall} {sessionId : JsString} {calm : Prop}

-- What a call's end leaves of what went to the tool and to the client.
theorem detach_frames (s : Receiver) (call : Nat) :
    (s.detach call).sent = s.sent ∧ (s.detach call).delivered = s.delivered := by
  unfold Receiver.detach
  repeat' split
  all_goals exact ⟨rfl, rfl⟩

theorem forget_frames (s : Receiver) (call : Nat) :
    (s.forget call).sent = s.sent ∧ (s.forget call).delivered = s.delivered := by
  unfold Receiver.forget
  split <;> exact ⟨rfl, rfl⟩

theorem closeOutside_frames (s : Receiver) (call : Nat) :
    (s.closeOutside call).sent = s.sent ∧ (s.closeOutside call).delivered = s.delivered := by
  unfold Receiver.closeOutside
  repeat' split
  all_goals exact ⟨rfl, rfl⟩

theorem Sent.Honest.later {sent : Sent} (h : sent.Honest s) (hlater : s.Later s') : sent.Honest s' := by
  cases sent with
  | retry call frame =>
      obtain ⟨found, params, state, responses, hcall, hparams, hgiven⟩ := h
      obtain ⟨found', hcall', hsession, -⟩ := hlater.calls call found hcall
      refine ⟨found', params, state, responses, hcall', by rw [hsession]; exact hparams, fun entry hentry => ?_⟩
      rw [hsession]
      exact Given.later (hgiven entry hentry) hlater
  | resumed call frame =>
      obtain ⟨found, params, responses, hcall, hparams, hgiven⟩ := h
      obtain ⟨found', hcall', hsession, -⟩ := hlater.calls call found hcall
      refine ⟨found', params, responses, hcall', by rw [hsession]; exact hparams, fun entry hentry => ?_⟩
      rw [hsession]
      exact Given.later (hgiven entry hentry) hlater
  | answer sessionId event response frame => exact ⟨Replied.later h.1 hlater, h.2⟩
  | passed frame => exact trivial
  | opening call frame => exact trivial
  | refusal frame => exact trivial

theorem Sent.plain.honest {sent : Sent} (h : sent.plain) : sent.Honest s := by
  cases sent with
  | passed frame => exact trivial
  | refusal frame => exact trivial
  | _ => exact absurd h id

theorem honest_append (h : ∀ sent ∈ s.sent, sent.Honest s) (hlater : s.Later s') {one : Sent}
    (hsent : s'.sent = s.sent ++ [one]) (hone : one.Honest s') : ∀ sent ∈ s'.sent, sent.Honest s' := by
  intro sent hmem
  rw [hsent] at hmem
  rcases List.mem_append.mp hmem with hold | hnew
  · exact (h sent hold).later hlater
  · exact List.mem_singleton.mp hnew ▸ hone

theorem honest_same (h : ∀ sent ∈ s.sent, sent.Honest s) (hlater : s.Later s') (hsent : s'.sent = s.sent) :
    ∀ sent ∈ s'.sent, sent.Honest s' :=
  fun sent hmem => (h sent (hsent ▸ hmem)).later hlater

theorem HostMove.honest (hsound : HostSound s) (h : ∀ sent ∈ s.sent, sent.Honest s) (hmove : HostMove calm s s') :
    ∀ sent ∈ s'.sent, sent.Honest s' := by
  have hlater := hmove.later
  cases hmove with
  | aside haside =>
      obtain ⟨plain, hsent, hplain⟩ := haside.sent
      intro sent hmem
      rw [hsent] at hmem
      rcases List.mem_append.mp hmem with hold | hnew
      · exact (h sent hold).later hlater
      · exact (hplain sent hnew).honest
  | replies id hreplied => exact honest_append h hlater rfl ⟨Replied.later hreplied hlater, id, rfl⟩
  | opens frame id params signal hfresh => exact honest_append h hlater rfl trivial
  | @resumes call found state responses frame id params signal hcall hheld =>
      refine honest_append h hlater rfl ⟨_, params, responses, Heap.modify_self hcall, rfl, fun entry hentry => ?_⟩
      exact Given.later (hsound.fitted.given call found state responses hcall hheld entry hentry) hlater
  | ends inProgress events hcall hlive => exact honest_same h hlater (detach_frames s _).1
  | closesAhead forward hdoing hcloses hcall hlive hopen hbare hbehind => exact honest_same h hlater (detach_frames s _).1
  | detaches hcall hlive hclosed => exact honest_same h hlater (detach_frames s _).1
  | @retries call found work state responses hcall hlive hdoing hwork hdecide hgiven =>
      refine honest_append h hlater rfl ⟨_, found.params, state, responses, Heap.modify_self hcall, rfl, fun entry hentry => ?_⟩
      exact Given.later (hgiven entry hentry) hlater
  | forgets hcall hclosed => exact honest_same h hlater (forget_frames s _).1
  | closesOutside call hstorm => exact honest_same h hlater (closeOutside_frames s call).1
  | _ => exact honest_same h hlater rfl

-- An attempt that is answered, on a retry or by itself, is answered with what the endpoint decided on it in that
-- session, or it is told that nothing may run: no run of the seam gives a tool another answer.
theorem answers_from_endpoint {capability : AuditCapability} {actions : List ReceiverAction}
    (hrun : ReceiverRun capability actions s) : ∀ sent ∈ s.sent, sent.Honest s :=
  (hrun.keeps (I := fun s => ∀ sent ∈ s.sent, sent.Honest s) (fun _ hnone => (by cases hnone))
    fun _ _ hsound hkept hmove => hmove.honest hsound hkept).2

open Reference

theorem answers_from_endpoint_round :
    (auditedReceiver.sent.get ⟨1, by decide +kernel⟩).Honest
      auditedReceiver :=
  answers_from_endpoint (hostPlay_run auditedReceiver_plays) _ (List.get_mem _ _)

theorem retries_append {one : Sent} (hsent : s'.sent = s.sent ++ [one]) (call : Nat) :
    s'.retries call = s.retries call + if one.retries call then 1 else 0 := by
  unfold Receiver.retries
  rw [hsent, List.countP_append, List.countP_singleton]

theorem retries_eq (hsent : s'.sent = s.sent) (call : Nat) : s'.retries call = s.retries call := by
  unfold Receiver.retries
  rw [hsent]

theorem retries_other {one : Sent} (hsent : s'.sent = s.sent ++ [one]) (hone : ∀ call, one.retries call = false) (call : Nat) :
    s'.retries call = s.retries call := by
  rw [retries_append hsent, hone]
  rfl

theorem retries_plain {plain : List Sent} (hsent : s'.sent = s.sent ++ plain) (hplain : ∀ sent ∈ plain, sent.plain)
    (call : Nat) : s'.retries call = s.retries call := by
  unfold Receiver.retries
  rw [hsent, List.countP_append]
  have hnone : plain.countP (Sent.retries call) = 0 := by
    apply List.countP_eq_zero.mpr
    intro sent hmem
    have hone := hplain sent hmem
    cases sent with
    | retry other frame => exact absurd hone id
    | _ => exact Bool.false_ne_true
  omega

namespace Paced

theorem congr (h : Paced s) (hlater : s.Later s') (hretries : ∀ call, s'.retries call = s.retries call)
    (hback : ∀ (place : Nat) (after : HostCall), s'.heap[place]? = some after →
      ∃ before, s.heap[place]? = some before ∧ before.rounds = after.rounds)
    (hdoing : ∀ (sessionId : JsString) (work : RoundWork), (s'.chains sessionId).doing = some (.processing work) →
      ∃ first, (s.chains sessionId).doing = some (.processing first) ∧ work.call = first.call ∧ work.decide = first.decide) :
    Paced s' := by
  refine ⟨fun place after hafter => ?_, fun sessionId work after hwork hdecide hafter => ?_, fun place hnone => ?_⟩
  · obtain ⟨before, hbefore, hrounds⟩ := hback place after hafter
    rw [hretries, ← hrounds]
    exact h.bounded place before hbefore
  · obtain ⟨before, hbefore, hrounds⟩ := hback work.call after hafter
    obtain ⟨first, hfirst, hcall, hsame⟩ := hdoing sessionId work hwork
    rw [hcall] at hbefore
    rw [hretries, ← hrounds, hcall]
    exact h.pending sessionId first before hfirst (hsame ▸ hdecide) hbefore
  · rw [hretries]
    apply h.strange
    cases hplace : s.heap[place]? with
    | none => rfl
    | some before =>
        obtain ⟨after, hafter, -⟩ := hlater.calls place before hplace
        rw [hnone] at hafter
        cases hafter

-- Where no call changes, and no job begins a round.
theorem still (h : Paced s) (hlater : s.Later s') (hretries : ∀ call, s'.retries call = s.retries call)
    (hheap : s'.heap = s.heap) (hdoing : ∀ (sessionId : JsString) (work : RoundWork),
      (s'.chains sessionId).doing = some (.processing work) → ∃ first, (s.chains sessionId).doing = some (.processing first) ∧
        work.call = first.call ∧ work.decide = first.decide) : Paced s' :=
  h.congr hlater hretries (fun _ after hafter => ⟨after, hheap ▸ hafter, rfl⟩) hdoing

theorem modify (h : Paced s) (hlater : s.Later s') (hretries : ∀ call, s'.retries call = s.retries call)
    (hheap : s'.heap = s.heap.modify call change) (hrounds : ∀ found, (change found).rounds = found.rounds)
    (hdoing : ∀ (sessionId : JsString) (work : RoundWork),
      (s'.chains sessionId).doing = some (.processing work) → ∃ first, (s.chains sessionId).doing = some (.processing first) ∧
        work.call = first.call ∧ work.decide = first.decide) : Paced s' := by
  refine h.congr hlater hretries (fun place after hafter => ?_) hdoing
  obtain ⟨before, hbefore, rfl⟩ := modified hheap hafter
  refine ⟨before, hbefore, ?_⟩
  split
  · exact (hrounds before).symm
  · rfl

end Paced

-- What a queue does is what it did, or no round.
theorem doing_same (hchains : s'.chains = s.chains) (sessionId : JsString) (work : RoundWork)
    (hdoing : (s'.chains sessionId).doing = some (.processing work)) :
    ∃ first, (s.chains sessionId).doing = some (.processing first) ∧ work.call = first.call ∧ work.decide = first.decide :=
  ⟨work, hchains ▸ hdoing, rfl, rfl⟩

theorem doing_after {after : Option Doing} (hafter : ∀ work, after ≠ some (.processing work))
    (hchains : s'.chains = (s.goesOn sessionId after).chains) (other : JsString) (work : RoundWork)
    (hdoing : (s'.chains other).doing = some (.processing work)) :
    ∃ first, (s.chains other).doing = some (.processing first) ∧ work.call = first.call ∧ work.decide = first.decide := by
  rw [hchains, chains_goesOn] at hdoing
  split at hdoing
  · exact absurd hdoing (hafter work)
  · exact ⟨work, hdoing, rfl, rfl⟩

theorem HostMove.paced (hsound : HostSound s) (h : Paced s) (hmove : HostMove calm s s') : Paced s' := by
  have hlater := hmove.later
  cases hmove with
  | aside haside =>
      obtain ⟨plain, hsent, hplain⟩ := haside.sent
      exact h.still hlater (retries_plain hsent hplain) haside.heap (doing_same haside.chains)
  | replies id hreplied => exact h.still hlater (retries_other rfl fun _ => rfl) rfl (doing_same rfl)
  | @opens sessionId frame id params signal hfresh =>
      have hsame (call : Nat) : (s.openCall frame id params sessionId signal).retries call = s.retries call :=
        retries_other rfl (fun _ => rfl) call
      refine ⟨fun place after hafter => ?_, fun other work after hwork hdecide hafter => ?_, fun place hnone => ?_⟩
      · rw [hsame]
        rcases Heap.getElem?_append_iff.mp hafter with hold | ⟨hplace, rfl⟩
        · exact h.bounded place after hold
        · rw [hplace, h.strange _ (List.getElem?_eq_none (Nat.le_refl _))]
          exact ⟨Nat.zero_le _, Nat.zero_le _⟩
      · rw [hsame]
        rcases Heap.getElem?_append_iff.mp hafter with hold | ⟨hplace, rfl⟩
        · exact h.pending other work after hwork hdecide hold
        · obtain ⟨⟨found, hcall, -⟩, -⟩ := hsound.fitted.doing other _ hwork
          exact absurd (Heap.lt_of_getElem? hcall) (by omega)
      · rw [hsame]
        apply h.strange
        rw [List.getElem?_eq_none_iff] at hnone ⊢
        have hlength : (s.openCall frame id params sessionId signal).heap.length = s.heap.length + 1 := List.length_append
        omega
  | resumes frame id params signal hcall hheld =>
      exact h.modify hlater (retries_other rfl fun _ => rfl) rfl (fun _ => rfl) (doing_same rfl)
  | @ends call found inProgress events hcall hlive =>
      refine h.modify hlater (retries_eq (detach_frames s call).1) (detach_heap hcall hlive) (fun _ => rfl)
        fun other work hwork => ⟨work, ?_, rfl, rfl⟩
      rw [doing_inSession, doing_detach] at hwork
      exact hwork
  | @queues sessionId job hopen hfits hlive =>
      refine h.still hlater (retries_eq rfl) rfl fun other work hwork => ⟨work, ?_, rfl, rfl⟩
      rw [doing_inSession] at hwork
      exact hwork
  | @begins sessionId job jobs doing hchain hcloses hfits hround =>
      refine h.still hlater (retries_eq rfl) rfl fun other work hwork => ?_
      rw [chains_begins] at hwork
      split at hwork
      · exact absurd (Option.some_inj.mp hwork) (hround work)
      · exact ⟨work, hwork, rfl, rfl⟩
  | @goes sessionId before doing hdoing hcloses hfits hopen hround =>
      refine h.still hlater (retries_eq rfl) rfl fun other work hwork => ?_
      rw [chains_goesOn] at hwork
      split at hwork
      · rename_i hsame
        subst hsame
        obtain ⟨first, rfl, hcall, hdecide⟩ := hround work (Option.some_inj.mp hwork)
        exact ⟨first, hdoing, hcall, hdecide⟩
      · exact ⟨work, hwork, rfl, rfl⟩
  | stops hdoing hclosed => exact h.still hlater (retries_eq rfl) rfl (doing_after (fun _ hround => (by cases hround)) rfl)
  | seals event hdoing hopen => exact h.still hlater (retries_eq rfl) rfl (doing_same rfl)
  | decides event hdoing hopen => exact h.still hlater (retries_eq rfl) rfl (doing_same rfl)
  | closes hdoing hcloses hcall hopen =>
      exact h.modify hlater (retries_eq rfl) rfl (fun _ => rfl) (doing_after (fun _ hround => (by cases hround)) rfl)
  | @closesAhead call found doing forward hdoing hcloses hcall hlive hopen hbare hbehind =>
      refine h.modify hlater (retries_eq (detach_frames s call).1) (detach_heap_closed hcall hlive) (fun _ => rfl) fun other work hwork => ?_
      rw [chains_goesOn] at hwork
      split at hwork
      · cases hwork
      · exact ⟨work, by rw [← detach_chains s call]; exact hwork, rfl, rfl⟩
  | detaches hcall hlive hclosed =>
      exact h.modify hlater (retries_eq (detach_frames s _).1) (detach_heap hcall hlive) (fun _ => rfl)
        (doing_same (detach_chains s _))
  | @rounds call found frame decided hcall hdoing hdecide =>
      have hsame (place : Nat) : (s.beginRound found.sessionId call frame decided).retries place = s.retries place :=
        retries_eq rfl place
      refine ⟨fun place after hafter => ?_, fun other work after hwork hdecided hafter => ?_, fun place hnone => ?_⟩
      · obtain ⟨before, hbefore, rfl⟩ := modified (s := s) rfl hafter
        have hbounded := h.bounded place before hbefore
        rw [hsame]
        split
        · exact ⟨Nat.le_succ_of_le hbounded.1, hbounded.2⟩
        · exact hbounded
      · obtain ⟨before, hbefore, rfl⟩ := modified (s := s) rfl hafter
        unfold Receiver.beginRound at hwork
        rw [chains_goesOn] at hwork
        rw [hsame]
        split at hwork
        · -- The round that begins.
          obtain rfl := Doing.processing.inj (Option.some_inj.mp hwork)
          rw [hcall] at hbefore
          obtain rfl := Option.some_inj.mp hbefore
          rw [if_pos rfl]
          have hbounded := h.bounded call found hcall
          exact ⟨Nat.succ_le_succ hbounded.1, hdecide hdecided⟩
        · rename_i hother
          obtain ⟨⟨owner, howner, hsession⟩, -⟩ := hsound.fitted.doing other _ hwork
          have hcall' : call ≠ work.call := by
            intro heq
            rw [← heq, hcall] at howner
            obtain rfl := Option.some_inj.mp howner
            exact hother hsession.symm
          rw [if_neg hcall']
          exact h.pending other work before hwork hdecided hbefore
      · rw [hsame]
        apply h.strange
        rw [List.getElem?_eq_none_iff] at hnone ⊢
        have hlength : (s.beginRound found.sessionId call frame decided).heap.length = s.heap.length := List.length_modify ..
        omega
  | holds hcall hlive hfree hgiven => exact h.modify hlater (retries_eq rfl) rfl (fun _ => rfl) (doing_same rfl)
  | @retries call found work state responses hcall hlive hdoing hwork hdecide hgiven =>
      have hcount (place : Nat) : (s.retry found.sessionId call found state responses).retries place =
          s.retries place + if call = place then 1 else 0 := by
        rw [retries_append rfl]
        simp [Sent.retries]
      have hroom := h.pending found.sessionId work found hdoing hdecide (hwork ▸ hcall)
      rw [hwork] at hroom
      refine ⟨fun place after hafter => ?_, fun other next after hnext hdecided hafter => ?_, fun place hnone => ?_⟩
      · obtain ⟨before, hbefore, rfl⟩ := modified (s := s) rfl hafter
        rw [hcount]
        by_cases hsame : call = place
        · subst hsame
          rw [hcall] at hbefore
          obtain rfl := Option.some_inj.mp hbefore
          rw [if_pos rfl, if_pos rfl]
          exact ⟨hroom.1, Nat.le_trans hroom.1 hroom.2⟩
        · rw [if_neg hsame, if_neg hsame]
          exact h.bounded place before hbefore
      · obtain ⟨before, hbefore, rfl⟩ := modified (s := s) rfl hafter
        unfold Receiver.retry at hnext
        rw [chains_goesOn] at hnext
        split at hnext
        · cases hnext
        · rename_i hother
          obtain ⟨⟨owner, howner, hsession⟩, -⟩ := hsound.fitted.doing other _ hnext
          have hcall' : call ≠ next.call := by
            intro heq
            rw [← heq, hcall] at howner
            obtain rfl := Option.some_inj.mp howner
            exact hother hsession.symm
          rw [hcount, if_neg hcall', if_neg hcall']
          exact h.pending other next before hnext hdecided hbefore
      · have hlength : (s.retry found.sessionId call found state responses).heap.length = s.heap.length := List.length_modify ..
        rw [List.getElem?_eq_none_iff] at hnone
        have hplace : call ≠ place := by
          rintro rfl
          have := Heap.lt_of_getElem? hcall
          omega
        rw [hcount, if_neg hplace]
        exact h.strange place (List.getElem?_eq_none_iff.mpr (by omega))
  | forgets hcall hclosed => exact h.still hlater (retries_eq (forget_frames s _).1) (forget_heap s _) (doing_same (forget_chains s _))
  | closesOutside call hstorm =>
      unfold Receiver.closeOutside at hlater ⊢
      cases hcall : s.heap[call]? with
      | none => exact h
      | some found =>
          rw [hcall] at hlater
          dsimp only at hlater ⊢
          split
          · exact h
          · rename_i hopen
            rw [if_neg hopen] at hlater
            exact h.modify hlater (retries_eq rfl) rfl (fun _ => rfl) (doing_same rfl)
  | answers answer hdecision => exact h.still hlater (retries_eq rfl) rfl (doing_same rfl)
  | loses hstorm => exact h.still hlater (retries_eq rfl) rfl (doing_same rfl)

-- A tool that asks for one round after another gets a bounded number of retries of a call, never more than the
-- rounds it asked for: no tool keeps the host going.
theorem retries_bounded {capability : AuditCapability} {actions : List ReceiverAction}
    (hrun : ReceiverRun capability actions s) (call : Nat) :
    s.retries call ≤ MAX_ROUNDS_PER_CALL ∧ ∀ found, s.heap[call]? = some found → s.retries call ≤ found.rounds := by
  have hpaced : Paced s := (hrun.keeps (I := Paced) ⟨fun _ _ hcall => (by cases hcall), fun _ _ _ hdoing => (by cases hdoing),
    fun _ _ => rfl⟩ fun _ _ hsound hkept hmove => hmove.paced hsound hkept).2
  refine ⟨?_, fun found hcall => (hpaced.bounded call found hcall).1⟩
  cases hcall : s.heap[call]? with
  | none =>
      rw [hpaced.strange call hcall]
      exact Nat.zero_le _
  | some found => exact (hpaced.bounded call found hcall).2

theorem retries_bounded_round :
    auditedReceiver.retries 0 ≤ MAX_ROUNDS_PER_CALL :=
  (retries_bounded (hostPlay_run auditedReceiver_plays) 0).1

theorem HostMove.bare (h : ∀ shown ∈ s.delivered, shown.bare) (hmove : HostMove calm s s') :
    ∀ shown ∈ s'.delivered, shown.bare := by
  have hsame (hdelivered : s'.delivered = s.delivered) : ∀ shown ∈ s'.delivered, shown.bare :=
    fun shown hshown => h shown (hdelivered ▸ hshown)
  cases hmove with
  | aside haside =>
      obtain ⟨shown, hdelivered, hbare⟩ := haside.delivered
      intro one hone
      rw [hdelivered] at hone
      rcases List.mem_append.mp hone with hold | hnew
      · exact h one hold
      · exact hbare one hnew
  | ends inProgress events hcall hlive => exact hsame (detach_frames s _).2
  | closesAhead forward hdoing hcloses hcall hlive hopen hbare hbehind => exact hsame (detach_frames s _).2
  | detaches hcall hlive hclosed => exact hsame (detach_frames s _).2
  | forgets hcall hclosed => exact hsame (forget_frames s _).2
  | closesOutside call hstorm => exact hsame (closeOutside_frames s call).2
  | _ => exact hsame rfl

end

end AuditableMcp.Mcp.HostSeam
