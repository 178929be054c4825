import AuditableMcp.Mcp.HostSteps
import AuditableMcp.Reference.Receivers

-- How often the host's seam closes a session at the endpoint, and that it leaves none open.
namespace AuditableMcp.Mcp.HostSeam

open Receiver

def EndpointCall.closesSession (sessionId : JsString) : EndpointCall → Bool
  | .closeSession other => other = sessionId
  | _ => false

def Chain.closes (chain : Chain) : Bool := chain.doing.any Doing.closes || chain.jobs.any Job.closes

def Receiver.closings (s : Receiver) (sessionId : JsString) : Nat := s.asked.countP (EndpointCall.closesSession sessionId)

structure ClosedOnce (s : Receiver) : Prop where
  once : ∀ (call : Nat) (found : HostCall), s.heap[call]? = some found →
    s.closings found.sessionId = if found.closed then 1 else 0
  strange : ∀ sessionId : JsString, (∀ (call : Nat) (found : HostCall), s.heap[call]? = some found →
    found.sessionId ≠ sessionId) → s.closings sessionId = 0

-- The session of a call that ended is closed, or its queue comes to that.
def Pledged (s : Receiver) : Prop :=
  ∀ (call : Nat) (found : HostCall), s.heap[call]? = some found → found.ended = true → found.closed = false →
    (s.chains found.sessionId).closes = true

section

variable {s s' : Receiver} {call : Nat} {found : HostCall} {change : HostCall → HostCall} {sessionId : JsString}
  {doing before : Doing} {calm : Prop}

theorem closings_eq (hasked : s'.asked = s.asked) (sessionId : JsString) : s'.closings sessionId = s.closings sessionId := by
  unfold Receiver.closings
  rw [hasked]

theorem closings_append {one : EndpointCall} (hasked : s'.asked = s.asked ++ [one]) (sessionId : JsString) :
    s'.closings sessionId = s.closings sessionId + if one.closesSession sessionId then 1 else 0 := by
  unfold Receiver.closings
  rw [hasked, List.countP_append, List.countP_singleton]

theorem closings_other {one : EndpointCall} (hasked : s'.asked = s.asked ++ [one])
    (hother : ∀ sessionId, one.closesSession sessionId = false) (sessionId : JsString) :
    s'.closings sessionId = s.closings sessionId := by
  rw [closings_append hasked, hother]
  rfl

namespace ClosedOnce

theorem congr (h : ClosedOnce s) (hlater : s.Later s') (hclosings : ∀ sessionId, s'.closings sessionId = s.closings sessionId)
    (hback : ∀ (place : Nat) (after : HostCall), s'.heap[place]? = some after → ∃ before, s.heap[place]? = some before ∧
      before.sessionId = after.sessionId ∧ before.closed = after.closed) : ClosedOnce s' := by
  refine ⟨fun place after hafter => ?_, fun sessionId hnone => ?_⟩
  · obtain ⟨before, hbefore, hsession, hclosed⟩ := hback place after hafter
    rw [hclosings, ← hsession, ← hclosed]
    exact h.once place before hbefore
  · rw [hclosings]
    apply h.strange
    intro place before hbefore hsame
    obtain ⟨after, hafter, hsession, -⟩ := hlater.calls place before hbefore
    exact hnone place after hafter (hsession.trans hsame)

-- Where no call changes.
theorem still (h : ClosedOnce s) (hlater : s.Later s') (hclosings : ∀ sessionId, s'.closings sessionId = s.closings sessionId)
    (hheap : s'.heap = s.heap) : ClosedOnce s' :=
  h.congr hlater hclosings fun _ after hafter => ⟨after, hheap ▸ hafter, rfl, rfl⟩

theorem modify (h : ClosedOnce s) (hlater : s.Later s') (hasked : s'.asked = s.asked)
    (hheap : s'.heap = s.heap.modify call change) (hsession : ∀ found, (change found).sessionId = found.sessionId)
    (hclosed : ∀ found, (change found).closed = found.closed) : ClosedOnce s' := by
  refine h.congr hlater (closings_eq hasked) fun place after hafter => ?_
  obtain ⟨before, hbefore, rfl⟩ := modified hheap hafter
  refine ⟨before, hbefore, ?_⟩
  split
  · exact ⟨(hsession before).symm, (hclosed before).symm⟩
  · exact ⟨rfl, rfl⟩

-- The session of a call that was not closed is closed.
theorem closing (h : ClosedOnce s) (htables : Tables s) (hcall : s.heap[call]? = some found) (hopen : found.closed = false)
    (hheap : s'.heap = s.heap.modify call change) (hsession : ∀ found, (change found).sessionId = found.sessionId)
    (hclosed : ∀ found, (change found).closed = true)
    (hasked : s'.asked = s.asked ++ [.closeSession found.sessionId]) : ClosedOnce s' := by
  have hcount (sessionId : JsString) :
      s'.closings sessionId = s.closings sessionId + if found.sessionId = sessionId then 1 else 0 := by
    rw [closings_append hasked]
    simp [EndpointCall.closesSession]
  refine ⟨fun place after hafter => ?_, fun sessionId hnone => ?_⟩
  · obtain ⟨before, hbefore, rfl⟩ := modified hheap hafter
    by_cases hsame : call = place
    · subst hsame
      rw [hcall] at hbefore
      obtain rfl := Option.some_inj.mp hbefore
      rw [if_pos rfl, hsession, hclosed, hcount, if_pos rfl, h.once call found hcall, hopen]
      rfl
    · have hother : found.sessionId ≠ before.sessionId := fun heq => hsame (htables.apart call place found before hcall hbefore heq)
      rw [if_neg hsame, hcount, if_neg hother, h.once place before hbefore]
      rfl
  · have hstays (place : Nat) (before : HostCall) (hbefore : s.heap[place]? = some before) : before.sessionId ≠ sessionId := by
      have hafter := hnone place (if call = place then change before else before) (by
        rw [hheap]
        exact Heap.getElem?_modify_iff.mpr ⟨before, hbefore, rfl⟩)
      split at hafter
      · rwa [hsession] at hafter
      · exact hafter
    rw [hcount, if_neg (hstays call found hcall)]
    exact h.strange sessionId hstays

end ClosedOnce

theorem detach_asked (s : Receiver) (call : Nat) : (s.detach call).asked = s.asked := by
  unfold Receiver.detach
  repeat' split
  all_goals rfl

theorem forget_asked (s : Receiver) (call : Nat) : (s.forget call).asked = s.asked := by
  unfold Receiver.forget
  split <;> rfl

theorem HostMove.closedOnce (hsound : HostSound s) (h : ClosedOnce s) (hmove : HostMove calm s s') : ClosedOnce s' := by
  have hlater := hmove.later
  cases hmove with
  | aside haside => exact h.still hlater (closings_eq haside.asked) haside.heap
  | replies id hreplied => exact h.still hlater (closings_eq rfl) rfl
  | @opens sessionId frame id params signal hfresh =>
      have hsame (other : JsString) : (s.openCall frame id params sessionId signal).closings other = s.closings other :=
        closings_other rfl (fun _ => rfl) other
      simp only [Receiver.fresh, Bool.and_eq_true, decide_eq_true_eq, List.all_eq_true] at hfresh
      refine ⟨fun place after hafter => ?_, fun other hnone => ?_⟩
      · rw [hsame]
        rcases Heap.getElem?_append_iff.mp hafter with hold | ⟨-, rfl⟩
        · exact h.once place after hold
        · exact h.strange sessionId fun place before hbefore => hfresh.2 before (List.mem_of_getElem? hbefore)
      · rw [hsame]
        exact h.strange other fun place before hbefore => hnone place before (Heap.getElem?_append_iff.mpr (Or.inl hbefore))
  | resumes frame id params signal hcall hheld => exact h.modify hlater rfl rfl (fun _ => rfl) (fun _ => rfl)
  | ends inProgress events hcall hlive =>
      exact h.modify hlater (detach_asked s _) (detach_heap hcall hlive) (fun _ => rfl) (fun _ => rfl)
  | queues hopen hfits hlive => exact h.still hlater (closings_eq rfl) rfl
  | begins hchain hcloses hfits hround => exact h.still hlater (closings_eq rfl) rfl
  | goes hdoing hcloses hfits hopen hround => exact h.still hlater (closings_eq rfl) rfl
  | stops hdoing hclosed => exact h.still hlater (closings_eq rfl) rfl
  | seals event hdoing hopen => exact h.still hlater (closings_other rfl fun _ => rfl) rfl
  | decides event hdoing hopen => exact h.still hlater (closings_other rfl fun _ => rfl) rfl
  | closes hdoing hcloses hcall hopen => exact h.closing hsound.tables hcall hopen rfl (fun _ => rfl) (fun _ => rfl) rfl
  | @closesAhead call found doing forward hdoing hcloses hcall hlive hopen hbare hbehind =>
      have hasked : (s.detach call).asked ++ [.closeSession found.sessionId] = s.asked ++ [.closeSession found.sessionId] := by
        rw [detach_asked]
      exact h.closing hsound.tables hcall hopen (detach_heap_closed hcall hlive) (fun _ => rfl) (fun _ => rfl) hasked
  | detaches hcall hlive hclosed => exact h.modify hlater (detach_asked s _) (detach_heap hcall hlive) (fun _ => rfl) (fun _ => rfl)
  | rounds frame decide hcall hdoing hdecide => exact h.modify hlater rfl rfl (fun _ => rfl) (fun _ => rfl)
  | holds hcall hlive hfree hgiven => exact h.modify hlater rfl rfl (fun _ => rfl) (fun _ => rfl)
  | retries state hcall hlive hdoing hwork hdecide hgiven => exact h.modify hlater rfl rfl (fun _ => rfl) (fun _ => rfl)
  | forgets hcall hclosed => exact h.still hlater (closings_eq (forget_asked s _)) (forget_heap s _)
  | closesOutside call hstorm =>
      unfold Receiver.closeOutside
      cases hcall : s.heap[call]? with
      | none => exact h
      | some found =>
          dsimp only
          split
          · exact h
          · rename_i hopen
            exact h.closing hsound.tables hcall (Bool.not_eq_true _ ▸ hopen) rfl (fun _ => rfl) (fun _ => rfl) rfl
  | answers answer hdecision => exact h.still hlater (closings_eq rfl) rfl
  | loses hstorm => exact h.still hlater (closings_eq rfl) rfl

theorem closes_inSession (job : Job) {other : JsString} (h : (s.chains other).closes = true) :
    ((s.inSession sessionId job).chains other).closes = true := by
  rw [chains_inSession]
  split
  · rename_i hsame
    subst hsame
    unfold Chain.closes at h ⊢
    rw [List.any_append]
    simp only [Bool.or_eq_true] at h ⊢
    rcases h with hdoing | hjobs
    · exact Or.inl hdoing
    · exact Or.inr (Or.inl hjobs)
  · exact h

theorem closes_goesOn {after : Option Doing} (hdoing : (s.chains sessionId).doing = some before)
    (hcloses : before.closes = true → after.any Doing.closes = true) {other : JsString} (h : (s.chains other).closes = true) :
    ((s.goesOn sessionId after).chains other).closes = true := by
  rw [chains_goesOn]
  split
  · rename_i hsame
    subst hsame
    unfold Chain.closes at h ⊢
    rw [hdoing] at h
    simp only [Option.any_some, Bool.or_eq_true] at h ⊢
    rcases h with hbefore | hjobs
    · exact Or.inl (hcloses hbefore)
    · exact Or.inr hjobs
  · exact h

namespace Pledged

theorem congr (h : Pledged s) (hback : ∀ (place : Nat) (after : HostCall), s'.heap[place]? = some after →
      after.ended = true → after.closed = false → ∃ before, s.heap[place]? = some before ∧ before.ended = true ∧
        before.closed = false ∧ before.sessionId = after.sessionId)
    (hchains : ∀ sessionId, (s.chains sessionId).closes = true → (s'.chains sessionId).closes = true) : Pledged s' := by
  intro place after hafter hended hopen
  obtain ⟨before, hbefore, hended', hopen', hsession⟩ := hback place after hafter hended hopen
  exact hchains _ (hsession ▸ h place before hbefore hended' hopen')

theorem still (h : Pledged s) (hheap : s'.heap = s.heap)
    (hchains : ∀ sessionId, (s.chains sessionId).closes = true → (s'.chains sessionId).closes = true) : Pledged s' :=
  h.congr (fun _ after hafter hended hopen => ⟨after, hheap ▸ hafter, hended, hopen, rfl⟩) hchains

-- A change of one call that does not end it, unless its session is closed too.
theorem modify (h : Pledged s) (hheap : s'.heap = s.heap.modify call change)
    (hsession : ∀ found, (change found).sessionId = found.sessionId)
    (hended : ∀ found, s.heap[call]? = some found → (change found).ended = true → (change found).closed = false →
      found.ended = true ∧ found.closed = false)
    (hchains : ∀ sessionId, (s.chains sessionId).closes = true → (s'.chains sessionId).closes = true) : Pledged s' := by
  refine h.congr (fun place after hafter hends hopen => ?_) hchains
  obtain ⟨before, hbefore, rfl⟩ := modified hheap hafter
  by_cases hsame : call = place
  · subst hsame
    rw [if_pos rfl] at hends hopen ⊢
    obtain ⟨hends', hopen'⟩ := hended before hbefore hends hopen
    exact ⟨before, hbefore, hends', hopen', (hsession before).symm⟩
  · rw [if_neg hsame] at hends hopen ⊢
    exact ⟨before, hbefore, hends, hopen, rfl⟩

end Pledged

theorem HostMove.pledged (hsound : HostSound s) (h : Pledged s) (hmove : HostMove calm s s') : Pledged s' := by
  cases hmove with
  | aside haside => exact h.still haside.heap fun _ hcloses => by rw [haside.chains]; exact hcloses
  | replies id hreplied => exact h.still rfl fun _ hcloses => hcloses
  | opens frame id params signal hfresh =>
      refine h.congr (fun place after hafter hended hopen => ?_) fun _ hcloses => hcloses
      rcases Heap.getElem?_append_iff.mp hafter with hold | ⟨-, rfl⟩
      · exact ⟨after, hold, hended, hopen, rfl⟩
      · cases hended
  | resumes frame id params signal hcall hheld =>
      exact h.modify rfl (fun _ => rfl) (fun _ _ hended hopen => ⟨hended, hopen⟩) fun _ hcloses => hcloses
  | @ends call found inProgress events hcall hlive =>
      intro place after hafter hended hopen
      have hdetached : (s.detach call).heap[place]? = some after := hafter
      obtain ⟨before, hbefore, rfl⟩ := modified (detach_heap hcall hlive) hdetached
      by_cases hsame : call = place
      · subst hsame
        rw [hcall] at hbefore
        obtain rfl := Option.some_inj.mp hbefore
        rw [if_pos rfl, chains_inSession, if_pos rfl]
        simp [Chain.closes, Job.closes]
      · rw [if_neg hsame] at hended hopen ⊢
        apply closes_inSession
        rw [detach_chains]
        exact h place before hbefore hended hopen
  | queues hopen hfits hlive => exact h.still rfl fun _ => closes_inSession _
  | @begins sessionId job jobs doing hchain hcloses hfits hround =>
      refine h.still rfl fun other hother => ?_
      rw [chains_begins]
      split
      · rename_i hsame
        subst hsame
        rw [hchain] at hother ⊢
        simp only [Chain.closes, Option.any_none, Option.any_some, List.any_cons, List.tail_cons, Bool.false_or, hcloses] at hother ⊢
        exact hother
      · exact hother
  | @goes sessionId before doing hdoing hcloses hfits hopen hround =>
      have hgoes : before.closes = true → (some doing).any Doing.closes = true := fun hbefore => hcloses.trans hbefore
      exact h.still rfl fun _ => closes_goesOn hdoing hgoes
  | @stops sessionId doing hdoing hclosed =>
      intro place after hafter hended hopen
      have hfound : s.heap[place]? = some after := hafter
      have hold := h place after hfound hended hopen
      by_cases hcloses : doing.closes = true
      · obtain ⟨call, found, hcall, hsession, hclosed'⟩ := hclosed hcloses
        have hother : after.sessionId ≠ sessionId := by
          intro hsame
          obtain rfl := hsound.tables.apart place call after found hfound hcall (hsame.trans hsession.symm)
          rw [hcall] at hfound
          rw [← Option.some_inj.mp hfound, hclosed'] at hopen
          cases hopen
        rw [chains_goesOn, if_neg hother]
        exact hold
      · exact closes_goesOn hdoing (fun hbefore => absurd hbefore hcloses) hold
  | seals event hdoing hopen => exact h.still rfl fun _ hcloses => hcloses
  | decides event hdoing hopen => exact h.still rfl fun _ hcloses => hcloses
  | closes hdoing hcloses hcall hopen =>
      exact h.modify rfl (fun _ => rfl) (fun _ _ _ hopen' => by cases hopen') fun _ => closes_goesOn hdoing fun _ => rfl
  | @closesAhead call found doing forward hdoing hcloses hcall hlive hopen hbare hbehind =>
      refine h.modify (detach_heap_closed hcall hlive) (fun _ => rfl) (fun _ _ _ hopen' => by cases hopen') fun other hother => ?_
      have hdoing' : ((s.detach call).chains found.sessionId).doing = some doing := by rw [detach_chains, hdoing]
      exact closes_goesOn (s := ((s.detach call).alter call fun found => { found with closed := true }).ask
        (.closeSession found.sessionId)) hdoing' (fun _ => rfl) (detach_chains s call ▸ hother)
  | detaches hcall hlive hclosed =>
      refine h.modify (detach_heap hcall hlive) (fun _ => rfl) (fun one hone _ hopen => ?_) fun _ hcloses => ?_
      · rw [hcall] at hone
        obtain rfl := Option.some_inj.mp hone
        rw [hclosed] at hopen
        cases hopen
      · rw [detach_chains]
        exact hcloses
  | rounds frame decide hcall hdoing hdecide =>
      exact h.modify rfl (fun _ => rfl) (fun _ _ hended hopen => ⟨hended, hopen⟩) fun _ => closes_goesOn hdoing nofun
  | holds hcall hlive hfree hgiven =>
      exact h.modify rfl (fun _ => rfl) (fun _ _ hended hopen => ⟨hended, hopen⟩) fun _ hcloses => hcloses
  | retries state hcall hlive hdoing hwork hdecide hgiven =>
      exact h.modify rfl (fun _ => rfl) (fun _ _ hended hopen => ⟨hended, hopen⟩) fun _ => closes_goesOn hdoing nofun
  | forgets hcall hclosed => exact h.still (forget_heap s _) fun _ hcloses => by rw [forget_chains]; exact hcloses
  | closesOutside call hstorm =>
      unfold Receiver.closeOutside
      cases hcall : s.heap[call]? with
      | none => exact h
      | some found =>
          dsimp only
          split
          · exact h
          · exact h.modify rfl (fun _ => rfl) (fun _ _ _ hopen => by cases hopen) fun _ hcloses => hcloses
  | answers answer hdecision => exact h.still rfl fun _ hcloses => hcloses
  | loses hstorm => exact h.still rfl fun _ hcloses => hcloses

theorem ReceiverRun.closes {capability : AuditCapability} {actions : List ReceiverAction}
    (hrun : ReceiverRun capability actions s) : HostSound s ∧ ClosedOnce s ∧ Pledged s := by
  apply hrun.keeps (I := fun s => ClosedOnce s ∧ Pledged s)
  · exact ⟨⟨fun _ _ hcall => (by cases hcall), fun _ _ => rfl⟩, fun _ _ hcall => (by cases hcall)⟩
  · intro s s' hsound hkept hmove
    exact ⟨hmove.closedOnce hsound hkept.1, hmove.pledged hsound hkept.2⟩

theorem closeOutside_back {place : Nat} {after : HostCall} (hafter : (s.closeOutside call).heap[place]? = some after) :
    (place = call → after.closed = true) ∧ ∃ before, s.heap[place]? = some before ∧
      (before.closed = true → after.closed = true) := by
  unfold Receiver.closeOutside at hafter
  cases hcall : s.heap[call]? with
  | none =>
      rw [hcall] at hafter
      refine ⟨fun hsame => ?_, after, hafter, fun hclosed => hclosed⟩
      rw [hsame, hcall] at hafter
      cases hafter
  | some found =>
      rw [hcall] at hafter
      dsimp only at hafter
      split at hafter
      · rename_i hclosed
        refine ⟨fun hsame => ?_, after, hafter, fun hclosed => hclosed⟩
        rw [hsame, hcall] at hafter
        exact Option.some_inj.mp hafter ▸ hclosed
      · obtain ⟨before, hbefore, rfl⟩ := Heap.getElem?_modify_iff.mp hafter
        refine ⟨fun hsame => by rw [if_pos hsame.symm], before, hbefore, fun hclosed => ?_⟩
        split
        · rfl
        · exact hclosed

theorem closeEach_closed {entries : List (JsString × Nat)} (h : ∀ (place : Nat) (before : HostCall),
      s.heap[place]? = some before → before.closed = true ∨ place ∈ entries.map Prod.snd) {place : Nat} {after : HostCall}
    (hafter : (entries.foldl (fun s entry => s.closeOutside entry.2) s).heap[place]? = some after) : after.closed = true := by
  induction entries generalizing s with
  | nil =>
      rcases h place after hafter with hclosed | hnone
      · exact hclosed
      · cases hnone
  | cons entry rest ih =>
      refine ih (fun other middle hmiddle => ?_) hafter
      obtain ⟨hsame, before, hbefore, hkept⟩ := closeOutside_back hmiddle
      rcases h other before hbefore with hclosed | hlisted
      · exact Or.inl (hkept hclosed)
      · rcases List.mem_cons.mp hlisted with hfirst | hrest
        · exact Or.inl (hsame hfirst)
        · exact Or.inr hrest

theorem closeAll_closed (htables : Tables s) {place : Nat} {after : HostCall} (hafter : s.closeAll.heap[place]? = some after) :
    after.closed = true := by
  have hlisted (other : Nat) (before : HostCall) (hbefore : s.heap[other]? = some before) :
      before.closed = true ∨ other ∈ s.unclosed.entries.map Prod.snd := by
    cases hclosed : before.closed with
    | true => exact Or.inl rfl
    | false => exact Or.inr (List.mem_map_of_mem (OrderedMap.mem_of_get (htables.unclosed other before hbefore hclosed)))
  exact closeEach_closed hlisted hafter

-- Whatever is lost, fails or comes late, the endpoint is asked to close a session once at most; it has been
-- when the queue of a call that ended is empty, and for every session after the wait that a lost connection bounds.
theorem sessions_closed {capability : AuditCapability} {actions : List ReceiverAction}
    (hrun : ReceiverRun capability actions s) :
    (∀ sessionId, s.closings sessionId ≤ 1) ∧
      (∀ (call : Nat) (found : HostCall), s.heap[call]? = some found → found.ended = true →
        s.chains found.sessionId = ⟨none, []⟩ → s.closings found.sessionId = 1) ∧
      ∀ s', s.perform capability .closesRegardless = some s' →
        ∀ (call : Nat) (found : HostCall), s'.heap[call]? = some found → s'.closings found.sessionId = 1 := by
  obtain ⟨hsound, honce, hpledged⟩ := hrun.closes
  refine ⟨fun sessionId => ?_, fun call found hcall hended hidle => ?_, fun s' hperform call found hcall => ?_⟩
  · by_cases hnone : ∀ (call : Nat) (found : HostCall), s.heap[call]? = some found → found.sessionId ≠ sessionId
    · rw [honce.strange sessionId hnone]
      omega
    · simp only [not_forall, not_not] at hnone
      obtain ⟨call, found, hcall, rfl⟩ := hnone
      rw [honce.once call found hcall]
      split <;> omega
  · have hclosed : found.closed = true := by
      by_contra hopen
      have hcloses := hpledged call found hcall hended (Bool.not_eq_true _ ▸ hopen)
      rw [hidle] at hcloses
      cases hcloses
    rw [honce.once call found hcall, if_pos hclosed]
  · obtain ⟨-, honce', -⟩ := (hrun.step hperform).closes
    simp only [Receiver.perform] at hperform
    split at hperform
    · cases hperform
    · obtain rfl := Option.some_inj.mp hperform
      rw [honce'.once call found hcall, if_pos (closeAll_closed hsound.tables hcall)]

open Reference

theorem sessions_closed_round : auditedReceiver.closings SESSION_A ≤ 1 :=
  (sessions_closed (hostPlay_run auditedReceiver_plays)).1 SESSION_A

end

end AuditableMcp.Mcp.HostSeam
