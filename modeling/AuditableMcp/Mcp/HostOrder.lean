import AuditableMcp.Mcp.HostClosings

-- The order of what the endpoint is asked: a session's queue ends with its closing.
namespace AuditableMcp.Mcp.HostSeam

open Receiver

def EndpointCall.isFor (sessionId : JsString) : EndpointCall → Bool
  | .openSession other => other = sessionId
  | .handleAttempt _ other => other = sessionId
  | .handleOutcome _ other => other = sessionId
  | .closeSession other => other = sessionId

-- Nothing is asked for a session that was closed.
def InOrder (s : Receiver) : Prop :=
  s.asked.Pairwise fun earlier later => ∀ sessionId, earlier.closesSession sessionId = true → later.isFor sessionId = false

-- Which of a queue's work closes the session.
def Chain.marks (chain : Chain) : List Bool := (chain.doing.map Doing.closes).toList ++ chain.jobs.map Job.closes

-- A call in flight has nothing queued that closes its session, one that ended has it queued last, and behind the
-- closing there is no work.
structure Chain.Stands (ended closed : Bool) (chain : Chain) : Prop where
  live : ended = false → closed = false → ∀ mark ∈ chain.marks, mark = false
  ending : ended = true → closed = false → ∃ earlier, chain.marks = earlier ++ [true] ∧ ∀ mark ∈ earlier, mark = false
  concluded : closed = true → ended = true ∧ chain.jobs = [] ∧
    ∀ doing, chain.doing = some doing → ∃ call forward, doing = .closing call forward

structure Ordered (s : Receiver) : Prop where
  stands : ∀ (call : Nat) (found : HostCall), s.heap[call]? = some found →
    (s.chains found.sessionId).Stands found.ended found.closed
  strange : ∀ sessionId : JsString, sessionId ≠ NO_CALL_IN_FLIGHT →
    (∀ (call : Nat) (found : HostCall), s.heap[call]? = some found → found.sessionId ≠ sessionId) →
      s.chains sessionId = ⟨none, []⟩

-- The states a new seam reaches while the connection stays and no retry fails ahead of queued work.
inductive CalmRun (capability : AuditCapability) : List ReceiverAction → Receiver → Prop
  | start : CalmRun capability [] .empty
  | step {actions : List ReceiverAction} {action : ReceiverAction} {s s' : Receiver}
      (hrun : CalmRun capability actions s) (hcalm : Calm s action) (hperform : s.perform capability action = some s') :
      CalmRun capability (actions ++ [action]) s'

section

variable {s s' : Receiver} {call : Nat} {found : HostCall} {change : HostCall → HostCall} {sessionId : JsString}
  {doing before : Doing}

namespace Chain.Stands

variable {ended closed : Bool} {chain after : Chain}

-- Work of the same kinds, and no closing taken up anew.
theorem same (h : chain.Stands ended closed) (hmarks : after.marks = chain.marks)
    (hover : closed = true → after.jobs = [] ∧ ∀ doing, after.doing = some doing → ∃ call forward, doing = .closing call forward) :
    after.Stands ended closed :=
  ⟨fun hended hopen => hmarks ▸ h.live hended hopen, fun hended hopen => hmarks ▸ h.ending hended hopen,
    fun hclosed => ⟨(h.concluded hclosed).1, hover hclosed⟩⟩

-- Open work is over, or another piece of it has begun.
theorem drop (h : chain.Stands ended closed) {rest : List Bool} (hmarks : chain.marks = false :: rest) (hafter : after.marks = rest)
    (hover : closed = true → after.jobs = [] ∧ ∀ doing, after.doing = some doing → ∃ call forward, doing = .closing call forward) :
    after.Stands ended closed := by
  refine ⟨fun hended hopen mark hmark => ?_, fun hended hopen => ?_, fun hclosed => ⟨(h.concluded hclosed).1, hover hclosed⟩⟩
  · exact h.live hended hopen mark (hmarks ▸ List.mem_cons_of_mem _ (hafter ▸ hmark))
  · obtain ⟨earlier, hearlier, hall⟩ := h.ending hended hopen
    rw [hmarks] at hearlier
    cases earlier with
    | nil =>
        rw [List.nil_append] at hearlier
        cases (List.cons.inj hearlier).1
    | cons first others =>
        rw [List.cons_append] at hearlier
        refine ⟨others, hafter.trans (List.cons.inj hearlier).2, fun mark hmark => hall mark (List.mem_cons_of_mem _ hmark)⟩

end Chain.Stands

theorem marks_inSession (s : Receiver) (sessionId : JsString) (job : Job) :
    ((s.inSession sessionId job).chains sessionId).marks = (s.chains sessionId).marks ++ [job.closes] := by
  rw [chains_inSession, if_pos rfl]
  simp [Chain.marks]

namespace Ordered

theorem congr (h : Ordered s) (hlater : s.Later s') (hback : ∀ (place : Nat) (after : HostCall), s'.heap[place]? = some after →
      ∃ before, s.heap[place]? = some before ∧ before.sessionId = after.sessionId ∧
        (s'.chains after.sessionId).Stands after.ended after.closed)
    (hstrange : ∀ sessionId, s.chains sessionId = ⟨none, []⟩ → sessionId ≠ NO_CALL_IN_FLIGHT →
      (∀ (call : Nat) (found : HostCall), s.heap[call]? = some found → found.sessionId ≠ sessionId) →
        s'.chains sessionId = ⟨none, []⟩) : Ordered s' := by
  refine ⟨fun place after hafter => ?_, fun sessionId hnamed hnone => ?_⟩
  · obtain ⟨before, -, -, hstands⟩ := hback place after hafter
    exact hstands
  · have hnone' (place : Nat) (before : HostCall) (hbefore : s.heap[place]? = some before) : before.sessionId ≠ sessionId := by
      obtain ⟨after, hafter, hsession, -⟩ := hlater.calls place before hbefore
      rw [← hsession]
      exact hnone place after hafter
    exact hstrange sessionId (h.strange sessionId hnamed hnone') hnamed hnone'

-- Where the calls stay as they are, but for what the queues do not go by.
theorem still (h : Ordered s) (hlater : s.Later s') (hback : ∀ (place : Nat) (after : HostCall), s'.heap[place]? = some after →
      ∃ before, s.heap[place]? = some before ∧ before.sessionId = after.sessionId ∧ before.ended = after.ended ∧
        before.closed = after.closed) (hchains : s'.chains = s.chains) : Ordered s' := by
  refine h.congr hlater (fun place after hafter => ?_) fun _ hidle _ _ => by rw [hchains]; exact hidle
  obtain ⟨before, hbefore, hsession, hended, hclosed⟩ := hback place after hafter
  refine ⟨before, hbefore, hsession, ?_⟩
  rw [hchains, ← hsession, ← hended, ← hclosed]
  exact h.stands place before hbefore

-- One queue goes on.
theorem goesOn (h : Ordered s) (hlater : s.Later s') (hback : ∀ (place : Nat) (after : HostCall), s'.heap[place]? = some after →
      ∃ before, s.heap[place]? = some before ∧ before.sessionId = after.sessionId ∧ before.ended = after.ended ∧
        before.closed = after.closed)
    (hother : ∀ other, other ≠ sessionId → s'.chains other = s.chains other) (hbusy : s.chains sessionId ≠ ⟨none, []⟩)
    (hstands : ∀ ended closed, (s.chains sessionId).Stands ended closed → (s'.chains sessionId).Stands ended closed) :
    Ordered s' := by
  refine h.congr hlater (fun place after hafter => ?_) fun other hidle _ _ => ?_
  · obtain ⟨before, hbefore, hsession, hended, hclosed⟩ := hback place after hafter
    refine ⟨before, hbefore, hsession, ?_⟩
    have hold := h.stands place before hbefore
    rw [← hsession, ← hended, ← hclosed]
    by_cases hsame : before.sessionId = sessionId
    · rw [hsame] at hold ⊢
      exact hstands _ _ hold
    · rw [hother _ hsame]
      exact hold
  · by_cases hsame : other = sessionId
    · exact absurd (hsame ▸ hidle) hbusy
    · rw [hother other hsame]
      exact hidle

end Ordered

theorem back_same (hheap : s'.heap = s.heap) (place : Nat) (after : HostCall) (hafter : s'.heap[place]? = some after) :
    ∃ before, s.heap[place]? = some before ∧ before.sessionId = after.sessionId ∧ before.ended = after.ended ∧
      before.closed = after.closed := ⟨after, hheap ▸ hafter, rfl, rfl, rfl⟩

theorem back_modify (hheap : s'.heap = s.heap.modify call change) (hsession : ∀ found, (change found).sessionId = found.sessionId)
    (hended : ∀ found, (change found).ended = found.ended) (hclosed : ∀ found, (change found).closed = found.closed)
    (place : Nat) (after : HostCall) (hafter : s'.heap[place]? = some after) :
    ∃ before, s.heap[place]? = some before ∧ before.sessionId = after.sessionId ∧ before.ended = after.ended ∧
      before.closed = after.closed := by
  obtain ⟨before, hbefore, rfl⟩ := modified hheap hafter
  refine ⟨before, hbefore, ?_⟩
  split
  · exact ⟨(hsession before).symm, (hended before).symm, (hclosed before).symm⟩
  · exact ⟨rfl, rfl, rfl⟩

theorem busy_of_doing (hdoing : (s.chains sessionId).doing = some doing) : s.chains sessionId ≠ ⟨none, []⟩ := by
  intro hidle
  rw [hidle] at hdoing
  cases hdoing

-- What a queue does gives way to other work of its kind.
theorem stands_goesOn {next : Doing} (hdoing : (s.chains sessionId).doing = some doing) (hcloses : next.closes = doing.closes)
    (hopen : ∀ call forward, doing ≠ .closing call forward) (ended closed : Bool)
    (h : (s.chains sessionId).Stands ended closed) : ((s.goesOn sessionId (some next)).chains sessionId).Stands ended closed := by
  rw [chains_goesOn, if_pos rfl]
  refine h.same ?_ fun hclosed => ?_
  · simp only [Chain.marks, hdoing, Option.map_some, hcloses]
  · obtain ⟨call, forward, heq⟩ := (h.concluded hclosed).2.2 doing hdoing
    exact absurd heq (hopen call forward)

-- The call whose queue is at its closing is the one that ended, and nothing is behind it.
theorem closing_last (h : (s.chains sessionId).Stands found.ended found.closed) (hopen : found.closed = false)
    (hdoing : (s.chains sessionId).doing = some doing) (hcloses : doing.closes = true) :
    found.ended = true ∧ (s.chains sessionId).jobs = [] := by
  have hmarks : (s.chains sessionId).marks = true :: (s.chains sessionId).jobs.map Job.closes := by
    simp only [Chain.marks, hdoing, Option.map_some, hcloses]
    rfl
  cases hended : found.ended with
  | false =>
      have hnone := h.live hended hopen true (hmarks ▸ List.mem_cons_self)
      cases hnone
  | true =>
      refine ⟨rfl, ?_⟩
      obtain ⟨earlier, hearlier, hall⟩ := h.ending hended hopen
      rw [hmarks] at hearlier
      cases earlier with
      | nil => exact List.map_eq_nil_iff.mp (List.cons.inj hearlier).2
      | cons first others =>
          have hfirst := hall first List.mem_cons_self
          rw [List.cons_append] at hearlier
          rw [← (List.cons.inj hearlier).1] at hfirst
          cases hfirst

-- A queue that comes to its closing with nothing behind it.
theorem Ordered.closing (h : Ordered s) (htables : Tables s) (hlater : s.Later s') (hcall : s.heap[call]? = some found)
    (hheap : s'.heap = s.heap.modify call change) (hsession : ∀ found, (change found).sessionId = found.sessionId)
    (hclosed : ∀ found, (change found).closed = true) (hended : (change found).ended = true)
    (hjobs : (s.chains found.sessionId).jobs = [])
    (forward : Option JsonRpcFrame) (hself : s'.chains found.sessionId = ⟨some (.closing call forward), (s.chains found.sessionId).jobs⟩)
    (hother : ∀ other, other ≠ found.sessionId → s'.chains other = s.chains other) : Ordered s' := by
  refine h.congr hlater (fun place after hafter => ?_) fun other hidle _ hnone => ?_
  · obtain ⟨before, hbefore, rfl⟩ := modified hheap hafter
    by_cases hsame : call = place
    · subst hsame
      rw [hcall] at hbefore
      obtain rfl := Option.some_inj.mp hbefore
      rw [if_pos rfl, hsession, hclosed]
      refine ⟨found, hcall, rfl, nofun, nofun, fun _ => ?_⟩
      rw [hself]
      exact ⟨hended, hjobs, fun doing hdoing => ⟨call, forward, (Option.some_inj.mp hdoing).symm⟩⟩
    · rw [if_neg hsame]
      have hne : before.sessionId ≠ found.sessionId := fun heq => hsame (htables.apart call place found before hcall hbefore heq.symm)
      rw [hother _ hne]
      exact ⟨before, hbefore, rfl, h.stands place before hbefore⟩
  · rw [hother other fun hsame => hnone call found hcall hsame.symm]
    exact hidle

theorem goesOn_other (after : Option Doing) {other : JsString} (hother : other ≠ sessionId) :
    (s.goesOn sessionId after).chains other = s.chains other := by
  rw [chains_goesOn, if_neg hother]

theorem HostMove.ordered (hsound : HostSound s) (h : Ordered s) (hmove : HostMove True s s') : Ordered s' := by
  have hlater := hmove.later
  cases hmove with
  | aside haside => exact h.still hlater (back_same haside.heap) haside.chains
  | replies id hreplied => exact h.still hlater (back_same rfl) rfl
  | @opens sessionId frame id params signal hfresh =>
      simp only [Receiver.fresh, Bool.and_eq_true, decide_eq_true_eq, List.all_eq_true] at hfresh
      refine ⟨fun place after hafter => ?_, fun other hnamed hnone => ?_⟩
      · rcases Heap.getElem?_append_iff.mp hafter with hold | ⟨-, rfl⟩
        · exact h.stands place after hold
        · have hidle : s.chains sessionId = ⟨none, []⟩ :=
            h.strange sessionId hfresh.1 fun place before hbefore => hfresh.2 before (List.mem_of_getElem? hbefore)
          change (s.chains sessionId).Stands false false
          rw [hidle]
          exact ⟨fun _ _ _ hmark => (by cases hmark), fun hended => (by cases hended), fun hclosed => (by cases hclosed)⟩
      · exact h.strange other hnamed fun place before hbefore => hnone place before (Heap.getElem?_append_iff.mpr (Or.inl hbefore))
  | resumes frame id params signal hcall hheld =>
      exact h.still hlater (back_modify rfl (fun _ => rfl) (fun _ => rfl) (fun _ => rfl)) rfl
  | @ends call found inProgress events hcall hlive =>
      have hheap := detach_heap hcall hlive
      refine h.congr hlater (fun place after hafter => ?_) fun other hidle _ hnone => ?_
      · have hdetached : (s.detach call).heap[place]? = some after := hafter
        obtain ⟨before, hbefore, rfl⟩ := modified hheap hdetached
        by_cases hsame : call = place
        · subst hsame
          rw [hcall] at hbefore
          obtain rfl := Option.some_inj.mp hbefore
          rw [if_pos rfl]
          refine ⟨found, hcall, rfl, fun hended => (by cases hended), fun _ hopen => ?_, fun hclosed => ?_⟩
          · refine ⟨(s.chains found.sessionId).marks, ?_, (h.stands call found hcall).live hlive hopen⟩
            have hmarks := marks_inSession (s.detach call) found.sessionId (.seals call inProgress events .close)
            rw [detach_chains] at hmarks
            exact hmarks
          · have hover := ((h.stands call found hcall).concluded hclosed).1
            rw [hlive] at hover
            cases hover
        · rw [if_neg hsame]
          have hne : before.sessionId ≠ found.sessionId :=
            fun heq => hsame (hsound.tables.apart call place found before hcall hbefore heq.symm)
          rw [chains_inSession, if_neg hne, detach_chains]
          exact ⟨before, hbefore, rfl, h.stands place before hbefore⟩
      · rw [chains_inSession, if_neg (fun hsame => hnone call found hcall hsame.symm), detach_chains]
        exact hidle
  | @queues sessionId job hopen hfits hlive =>
      refine h.congr hlater (fun place after hafter => ⟨after, hafter, rfl, ?_⟩) fun other hidle hnamed hnone => ?_
      · have hfound : s.heap[place]? = some after := hafter
        have hold := h.stands place after hfound
        by_cases hsame : after.sessionId = sessionId
        · subst hsame
          rcases hlive with hnowhere | ⟨call, found, hcall, hlive, hsession⟩
          · exact absurd hnowhere (hsound.tables.named place after hfound)
          · obtain rfl := hsound.tables.apart call place found after hcall hfound hsession
            rw [hcall] at hfound
            obtain rfl := Option.some_inj.mp hfound
            refine ⟨fun _ hopen' mark hmark => ?_, fun hended => ?_, fun hclosed => ?_⟩
            · rw [marks_inSession, hopen] at hmark
              rcases List.mem_append.mp hmark with hbefore | hnew
              · exact hold.live hlive hopen' mark hbefore
              · exact List.mem_singleton.mp hnew
            · rw [hlive] at hended
              cases hended
            · have hover := (hold.concluded hclosed).1
              rw [hlive] at hover
              cases hover
        · rw [chains_inSession, if_neg hsame]
          exact hold
      · have hother : other ≠ sessionId := by
          rintro rfl
          rcases hlive with hnowhere | ⟨call, found, hcall, -, hsession⟩
          · exact hnamed hnowhere
          · exact hnone call found hcall hsession
        rw [chains_inSession, if_neg hother]
        exact hidle
  | @begins sessionId job jobs doing hchain hcloses hfits hround =>
      have hself : (s.begins sessionId doing).chains sessionId = ⟨some doing, jobs⟩ := by
        rw [chains_begins, if_pos rfl, hchain]
        rfl
      refine h.goesOn hlater (back_same rfl) (fun other hother => ?_) (by rw [hchain]; intro hidle; cases hidle) fun ended closed hold => ?_
      · rw [chains_begins, if_neg hother]
      · rw [hchain] at hold
        rw [hself]
        refine hold.same ?_ fun hclosed => ?_
        · simp only [Chain.marks, Option.map_some, Option.map_none, hcloses]
          rfl
        · cases (hold.concluded hclosed).2.1
  | goes hdoing hcloses hfits hopen hround =>
      exact h.goesOn hlater (back_same rfl) (fun _ => goesOn_other _) (busy_of_doing hdoing) (stands_goesOn hdoing hcloses hopen)
  | @stops sessionId doing hdoing hclosed =>
      by_cases hcloses : doing.closes = true
      · obtain ⟨call, found, hcall, hsession, hclosed'⟩ := hclosed hcloses
        refine h.congr hlater (fun place after hafter => ⟨after, hafter, rfl, ?_⟩) fun other hidle _ hnone => ?_
        · have hfound : s.heap[place]? = some after := hafter
          have hold := h.stands place after hfound
          by_cases hsame : after.sessionId = sessionId
          · obtain rfl := hsound.tables.apart call place found after hcall hfound (hsession.trans hsame.symm)
            rw [hcall] at hfound
            obtain rfl := Option.some_inj.mp hfound
            subst hsame
            rw [hclosed'] at hold ⊢
            obtain ⟨hended, hjobs, -⟩ := hold.concluded rfl
            rw [chains_goesOn, if_pos rfl]
            exact ⟨fun _ hopen => (by cases hopen), fun _ hopen => (by cases hopen), fun _ => ⟨hended, hjobs, fun _ hdoing => (by cases hdoing)⟩⟩
          · rw [goesOn_other none hsame]
            exact hold
        · rw [goesOn_other none fun hsame => hnone call found hcall (hsession.trans hsame.symm)]
          exact hidle
      · refine h.goesOn hlater (back_same rfl) (fun _ => goesOn_other none) (busy_of_doing hdoing) fun ended closed hold => ?_
        rw [chains_goesOn, if_pos rfl]
        refine hold.drop ?_ (rfl : _ = (s.chains sessionId).jobs.map Job.closes) fun hclosed' => ?_
        · simp only [Chain.marks, hdoing, Option.map_some, Bool.not_eq_true _ ▸ hcloses]
          rfl
        · obtain ⟨call, forward, heq⟩ := (hold.concluded hclosed').2.2 doing hdoing
          rw [heq] at hcloses
          exact absurd rfl hcloses
  | seals event hdoing hopen => exact h.still hlater (back_same rfl) rfl
  | decides event hdoing hopen => exact h.still hlater (back_same rfl) rfl
  | @closes call found doing hdoing hcloses hcall hopen =>
      obtain ⟨hended, hjobs⟩ := closing_last (h.stands call found hcall) hopen hdoing hcloses
      refine h.closing hsound.tables hlater hcall rfl (fun _ => rfl) (fun _ => rfl) hended hjobs none ?_
        fun _ => goesOn_other _
      rw [chains_goesOn, if_pos rfl]
      rfl
  | @closesAhead call found doing forward hdoing hcloses hcall hlive hopen hbare hbehind =>
      refine h.closing hsound.tables hlater hcall (detach_heap_closed hcall hlive) (fun _ => rfl) (fun _ => rfl) rfl (hbehind trivial) (some forward) ?_
        fun other hother => ?_
      · rw [chains_goesOn, if_pos rfl]
        change (⟨_, ((s.detach call).chains found.sessionId).jobs⟩ : Chain) = _
        rw [detach_chains]
      · rw [goesOn_other _ hother]
        exact congrFun (detach_chains s call) other
  | @detaches call found hcall hlive hclosed =>
      have hover := ((h.stands call found hcall).concluded hclosed).1
      rw [hlive] at hover
      cases hover
  | rounds frame decide hcall hdoing hdecide =>
      exact h.goesOn hlater (back_modify rfl (fun _ => rfl) (fun _ => rfl) (fun _ => rfl)) (fun _ => goesOn_other _)
        (busy_of_doing hdoing) (stands_goesOn hdoing rfl fun _ _ hclosing => (by cases hclosing))
  | holds hcall hlive hfree hgiven =>
      exact h.still hlater (back_modify rfl (fun _ => rfl) (fun _ => rfl) (fun _ => rfl)) rfl
  | retries state hcall hlive hdoing hwork hdecide hgiven =>
      exact h.goesOn hlater (back_modify rfl (fun _ => rfl) (fun _ => rfl) (fun _ => rfl)) (fun _ => goesOn_other _)
        (busy_of_doing hdoing) (stands_goesOn hdoing rfl fun _ _ hclosing => (by cases hclosing))
  | forgets hcall hclosed => exact h.still hlater (back_same (forget_heap s _)) (forget_chains s _)
  | closesOutside call hstorm => exact absurd trivial hstorm
  | answers answer hdecision => exact h.still hlater (back_same rfl) rfl
  | loses hstorm => exact absurd trivial hstorm

theorem inOrder_same (h : InOrder s) (hasked : s'.asked = s.asked) : InOrder s' := by
  unfold InOrder
  rw [hasked]
  exact h

theorem inOrder_append (h : InOrder s) {one : EndpointCall} (hasked : s'.asked = s.asked ++ [one])
    (hone : ∀ sessionId, one.isFor sessionId = true → s.closings sessionId = 0) : InOrder s' := by
  unfold InOrder
  rw [hasked, List.pairwise_append]
  refine ⟨h, List.pairwise_singleton _ _, fun earlier hearlier later hlater sessionId hcloses => ?_⟩
  obtain rfl := List.mem_singleton.mp hlater
  by_contra hfor
  have hnone := hone sessionId (Bool.not_eq_false _ ▸ hfor)
  unfold Receiver.closings at hnone
  exact List.countP_eq_zero.mp hnone earlier hearlier hcloses

-- A queue at open work is that of a session that was not closed.
theorem closings_zero (honce : ClosedOnce s) (hordered : Ordered s) (hdoing : (s.chains sessionId).doing = some doing)
    (hopen : ∀ call forward, doing ≠ .closing call forward) : s.closings sessionId = 0 := by
  by_cases hnone : ∀ (call : Nat) (found : HostCall), s.heap[call]? = some found → found.sessionId ≠ sessionId
  · exact honce.strange sessionId hnone
  · simp only [not_forall, not_not] at hnone
    obtain ⟨call, found, hcall, rfl⟩ := hnone
    rw [honce.once call found hcall, if_neg]
    intro hclosed
    obtain ⟨call', forward, heq⟩ := ((hordered.stands call found hcall).concluded hclosed).2.2 doing hdoing
    exact hopen call' forward heq

theorem HostMove.inOrder (honce : ClosedOnce s) (hordered : Ordered s) (h : InOrder s) (hmove : HostMove True s s') :
    InOrder s' := by
  cases hmove with
  | aside haside => exact inOrder_same h haside.asked
  | @opens sessionId frame id params signal hfresh =>
      simp only [Receiver.fresh, Bool.and_eq_true, decide_eq_true_eq, List.all_eq_true] at hfresh
      refine inOrder_append h rfl fun other hfor => ?_
      obtain rfl : sessionId = other := of_decide_eq_true hfor
      exact honce.strange sessionId fun place before hbefore => hfresh.2 before (List.mem_of_getElem? hbefore)
  | ends inProgress events hcall hlive => exact inOrder_same h (detach_asked s _)
  | @seals sessionId doing event hdoing hopen =>
      refine inOrder_append h rfl fun other hfor => ?_
      obtain rfl : sessionId = other := of_decide_eq_true hfor
      exact closings_zero honce hordered hdoing hopen
  | @decides sessionId doing event hdoing hopen =>
      refine inOrder_append h rfl fun other hfor => ?_
      obtain rfl : sessionId = other := of_decide_eq_true hfor
      exact closings_zero honce hordered hdoing hopen
  | @closes call found doing hdoing hcloses hcall hopen =>
      refine inOrder_append h rfl fun other hfor => ?_
      obtain rfl : found.sessionId = other := of_decide_eq_true hfor
      rw [honce.once call found hcall, hopen]
      rfl
  | @closesAhead call found doing forward hdoing hcloses hcall hlive hopen hbare hbehind =>
      have hasked : (s.detach call).asked ++ [.closeSession found.sessionId] = s.asked ++ [.closeSession found.sessionId] := by
        rw [detach_asked]
      refine inOrder_append h hasked fun other hfor => ?_
      obtain rfl : found.sessionId = other := of_decide_eq_true hfor
      rw [honce.once call found hcall, hopen]
      rfl
  | detaches hcall hlive hclosed => exact inOrder_same h (detach_asked s _)
  | forgets hcall hclosed => exact inOrder_same h (forget_asked s _)
  | closesOutside call hstorm => exact absurd trivial hstorm
  | _ => exact inOrder_same h rfl

theorem CalmRun.keeps {capability : AuditCapability} {I : Receiver → Prop} (hempty : I .empty)
    (hmove : ∀ s s', HostSound s → I s → HostMove True s s' → I s') {actions : List ReceiverAction}
    (hrun : CalmRun capability actions s) : HostSound s ∧ I s := by
  induction hrun with
  | start => exact ⟨.empty, hempty⟩
  | step hrun hcalm hperform ih =>
      have hmoves : HostMoves True _ _ := perform_moves ih.1 hperform fun _ => hcalm
      exact hmoves.keeps (I := fun s => HostSound s ∧ I s)
        (fun s s' hkept hlast => ⟨hlast.sound hkept.1, hmove s s' hkept.1 hkept.2 hlast⟩) ih

def ReceiverAction.quiet : ReceiverAction → Bool
  | .fails _ => false
  | .disconnects => false
  | .closesRegardless => false
  | _ => true

theorem calm_of_quiet {action : ReceiverAction} (h : action.quiet = true) : Calm s action := by
  cases action with
  | fails sessionId => cases h
  | disconnects => cases h
  | closesRegardless => cases h
  | _ => exact trivial

theorem hostPlay_calm {capability : AuditCapability} {actions : List ReceiverAction}
    (hplay : Reference.hostPlay capability actions = some s) (hquiet : ∀ action ∈ actions, action.quiet = true) :
    CalmRun capability actions s := by
  induction actions using List.reverseRecOn generalizing s with
  | nil => exact Option.some_inj.mp hplay ▸ .start
  | append_singleton actions action ih =>
      unfold Reference.hostPlay at hplay
      rw [List.foldl_append] at hplay
      obtain ⟨middle, hmiddle, hperform⟩ := Option.bind_eq_some_iff.mp hplay
      have hbefore := ih hmiddle fun one hone => hquiet one (List.mem_append_left _ hone)
      exact .step hbefore (calm_of_quiet (hquiet action (List.mem_append_right _ (List.mem_singleton_self _)))) hperform

-- While the connection stays, everything of a session reaches the endpoint before its closing: what arrived before the
-- call ended is put to a session still open, whatever was cancelled, cut off or answered late.
theorem closing_comes_last {capability : AuditCapability} {actions : List ReceiverAction}
    (hrun : CalmRun capability actions s) :
    s.asked.Pairwise fun earlier later => ∀ sessionId, earlier.closesSession sessionId = true → later.isFor sessionId = false := by
  have hempty : ClosedOnce Receiver.empty ∧ Ordered Receiver.empty ∧ InOrder Receiver.empty := by
    refine ⟨⟨fun _ _ hcall => (by cases hcall), fun _ _ => rfl⟩, ⟨fun _ _ hcall => (by cases hcall), fun _ _ _ => rfl⟩, ?_⟩
    exact List.Pairwise.nil
  have hkept := (hrun.keeps (I := fun s => ClosedOnce s ∧ Ordered s ∧ InOrder s) hempty fun s s' hsound hkept hmove =>
    ⟨hmove.closedOnce hsound hkept.1, hmove.ordered hsound hkept.2.1, hmove.inOrder hkept.1 hkept.2.1 hkept.2.2⟩).2
  exact hkept.2.2

open Reference

theorem closing_comes_last_round : auditedReceiver.asked.Pairwise
    fun earlier later => ∀ sessionId, earlier.closesSession sessionId = true → later.isFor sessionId = false :=
  closing_comes_last (hostPlay_calm auditedReceiver_plays (by decide))

end

end AuditableMcp.Mcp.HostSeam
