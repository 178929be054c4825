import AuditableMcp.Mcp.Courses
import AuditableMcp.Reference.Connections

-- No event of a call is lost, written twice or written out of its order.
namespace AuditableMcp.Mcp

open Transport

-- The call a written frame is of, and the call's events in it.
def Written.callOf : Written → Option Nat
  | .round call _ _ _ => some call
  | .final call _ _ _ => some call
  | .message call _ _ => some call
  | _ => none

def Written.eventsOf (call : Nat) : Written → List ToolEvent
  | .round other _ events _ => if other = call then events else []
  | .final other _ events _ => if other = call then events else []
  | _ => []

def Written.frame : Written → JsonRpcFrame
  | .round _ _ _ frame => frame
  | .final _ _ _ frame => frame
  | .message _ _ frame => frame
  | .refusal frame => frame
  | .passed frame => frame

-- The final frame of a call.
def Written.concludes (call : Nat) : Written → Prop
  | .final other _ _ _ => other = call
  | _ => False

-- The events written in a call's rounds and in its final result.
def Transport.carried (s : Transport) (call : Nat) : List ToolEvent := s.written.flatMap (·.eventsOf call)

def Transport.concludedWith (s : Transport) (call : Nat) : Prop := ∃ written ∈ s.written, written.concludes call

structure ToolCall.Conserved (carried : List ToolEvent) (concluded : Prop) (found : ToolCall) : Prop where
  running : found.finished = false → found.cancelled = false → carried ++ found.buffered = found.emitted
  ended : found.finished = true → found.cancelled = false → ∃ sent, found.emitted = sent ++ found.leftover ∧
    carried ++ found.buffered = sent ++ found.leftover.filter fun event => !event.isAttempt
  final : concluded → found.finished = true ∧ found.buffered = []

structure Conserves (s : Transport) : Prop where
  named : ∀ written ∈ s.written, ∀ call, written.callOf = some call → call < s.calls.length
  read : ∀ written ∈ s.written, ∀ call, written.eventsOf call ≠ [] →
    carriedEvents written.frame = some (eventsJson (written.eventsOf call))
  calls : ∀ (call : Nat) (found : ToolCall), s.calls[call]? = some found → found.modern = true →
    found.Conserved (s.carried call) (s.concludedWith call)

section

variable {config : TransportConfig} {s s' : Transport} {call other : Nat} {found : ToolCall} {change : ToolCall → ToolCall}

theorem callOf_plain {written : Written} (h : written.plain) : written.callOf = none := by
  cases written <;> first | rfl | exact absurd h id

-- A frame of another call carries no event of this one.
theorem eventsOf_other {written : Written} (h : written.callOf ≠ some call) :
    written.eventsOf call = [] ∧ ¬written.concludes call := by
  cases written with
  | round other token events frame => exact ⟨if_neg fun hsame => h (congrArg some hsame), id⟩
  | final other answer events frame =>
      exact ⟨if_neg fun hsame => h (congrArg some hsame), fun hsame => h (congrArg some hsame)⟩
  | message other event frame => exact ⟨rfl, id⟩
  | refusal frame => exact ⟨rfl, id⟩
  | passed frame => exact ⟨rfl, id⟩

theorem carried_append {more : List Written} (h : s'.written = s.written ++ more) (call : Nat) :
    s'.carried call = s.carried call ++ more.flatMap (·.eventsOf call) := by
  unfold Transport.carried
  rw [h, List.flatMap_append]

theorem concludedWith_append {more : List Written} (h : s'.written = s.written ++ more) :
    s'.concludedWith call ↔ s.concludedWith call ∨ ∃ written ∈ more, written.concludes call := by
  unfold Transport.concludedWith
  rw [h]
  simp only [List.mem_append, or_and_right, exists_or]

-- What is written is of calls that there are.
theorem Conserves.absent (h : Conserves s) (hcall : s.calls.length ≤ call) :
    s.carried call = [] ∧ ¬s.concludedWith call := by
  have hapart (written : Written) (hwritten : written ∈ s.written) : written.callOf ≠ some call := by
    intro hnamed
    have hlt := h.named written hwritten call hnamed
    omega
  constructor
  · exact List.flatMap_eq_nil_iff.mpr fun written hwritten => (eventsOf_other (hapart written hwritten)).1
  · rintro ⟨written, hwritten, hconcludes⟩
    exact (eventsOf_other (hapart written hwritten)).2 hconcludes

-- A move that changes one call, and writes of no other.
theorem Conserves.update (h : Conserves s) {more : List Written} (hcalls : s'.calls = s.calls.modify other change)
    (hwritten : s'.written = s.written ++ more)
    (hnamed : ∀ written ∈ more, ∀ call, written.callOf = some call → call = other ∧ other < s.calls.length)
    (hread : ∀ written ∈ more, ∀ call, written.eventsOf call ≠ [] →
      carriedEvents written.frame = some (eventsJson (written.eventsOf call)))
    (hmodern : ∀ before, (change before).modern = before.modern)
    (hconserved : ∀ before, s.calls[other]? = some before → before.modern = true →
      before.Conserved (s.carried other) (s.concludedWith other) →
        (change before).Conserved (s.carried other ++ more.flatMap (·.eventsOf other))
          (s.concludedWith other ∨ ∃ written ∈ more, written.concludes other)) : Conserves s' := by
  refine ⟨fun written hmem call hcallOf => ?_, fun written hmem call hevents => ?_, fun call after hafter hm => ?_⟩
  · rw [hcalls, List.length_modify]
    rw [hwritten] at hmem
    rcases List.mem_append.mp hmem with hold | hnew
    · exact h.named written hold call hcallOf
    · obtain ⟨rfl, hlt⟩ := hnamed written hnew call hcallOf
      exact hlt
  · rw [hwritten] at hmem
    rcases List.mem_append.mp hmem with hold | hnew
    · exact h.read written hold call hevents
    · exact hread written hnew call hevents
  · rw [carried_append hwritten, propext (concludedWith_append hwritten)]
    rw [hcalls] at hafter
    obtain ⟨before, hbefore, rfl⟩ := Heap.getElem?_modify_iff.mp hafter
    by_cases hsame : other = call
    · subst hsame
      rw [if_pos rfl] at hm ⊢
      rw [hmodern] at hm
      exact hconserved before hbefore hm (h.calls other before hbefore hm)
    · rw [if_neg hsame] at hm ⊢
      have hapart (written : Written) (hmem : written ∈ more) :
          written.eventsOf call = [] ∧ ¬written.concludes call :=
        eventsOf_other fun hcallOf => hsame (hnamed written hmem call hcallOf).1.symm
      have hnone : ¬∃ written ∈ more, written.concludes call := by
        rintro ⟨written, hmem, hconcludes⟩
        exact (hapart written hmem).2 hconcludes
      rw [List.flatMap_eq_nil_iff.mpr fun written hmem => (hapart written hmem).1, List.append_nil,
        or_iff_left hnone]
      exact h.calls call before hbefore hm

-- A move that writes nothing of a call.
theorem Conserves.silent (h : Conserves s) {more : List Written} (hcalls : s'.calls = s.calls.modify other change)
    (hwritten : s'.written = s.written ++ more) (hplain : ∀ written ∈ more, written.callOf = none)
    (hmodern : ∀ before, (change before).modern = before.modern)
    (hconserved : ∀ before, s.calls[other]? = some before → before.modern = true →
      before.Conserved (s.carried other) (s.concludedWith other) →
        (change before).Conserved (s.carried other) (s.concludedWith other)) : Conserves s' := by
  have hapart (written : Written) (hmem : written ∈ more) (call : Nat) :
      written.eventsOf call = [] ∧ ¬written.concludes call := by
    apply eventsOf_other
    rw [hplain written hmem]
    exact fun hnone => by cases hnone
  refine h.update hcalls hwritten (fun written hmem call hcallOf => ?_) (fun written hmem call hevents => ?_) hmodern
    fun before hbefore hm hold => ?_
  · rw [hplain written hmem] at hcallOf
    cases hcallOf
  · exact absurd (hapart written hmem call).1 hevents
  · have hnone : ¬∃ written ∈ more, written.concludes other := by
      rintro ⟨written, hmem, hconcludes⟩
      exact (hapart written hmem other).2 hconcludes
    rw [List.flatMap_eq_nil_iff.mpr fun written hmem => (hapart written hmem other).1, List.append_nil,
      or_iff_left hnone]
    exact hconserved before hbefore hm hold

theorem Conserves.congr (h : Conserves s) (hcalls : s'.calls = s.calls) (hwritten : s'.written = s.written) :
    Conserves s' := by
  have hsame : s'.calls = s.calls.modify 0 id := by rw [hcalls, List.modify_id]
  have hnothing : s'.written = s.written ++ [] := by rw [hwritten, List.append_nil]
  exact h.silent hsame hnothing (by simp) (fun _ => rfl) fun _ _ _ hold => hold

-- A message under §6.5 carries one event, of its call.
theorem Conserves.tells (h : Conserves s) (event : ToolEvent) (frame : JsonRpcFrame) (hlt : call < s.calls.length) :
    Conserves (s.write (.message call event frame)) := by
  have hsame : (s.write (.message call event frame)).calls = s.calls.modify call id := (List.modify_id ..).symm
  refine h.update hsame rfl (fun written hmem index hindex => ?_)
    (fun written hmem index hevents => ?_) (fun _ => rfl) fun before _ _ hold => ?_
  · obtain rfl := List.mem_singleton.mp hmem
    exact ⟨(Option.some_inj.mp hindex).symm, hlt⟩
  · obtain rfl := List.mem_singleton.mp hmem
    exact absurd rfl hevents
  · have hnone : ¬∃ written ∈ [Written.message call event frame], written.concludes call := by
      rintro ⟨written, hmem, hconcludes⟩
      obtain rfl := List.mem_singleton.mp hmem
      exact hconcludes
    rw [List.flatMap_singleton, or_iff_left hnone]
    change before.Conserved (s.carried call ++ []) (s.concludedWith call)
    rw [List.append_nil]
    exact hold

theorem ToolCall.Conserved.same {carried : List ToolEvent} {concluded : Prop} {before after : ToolCall}
    (h : before.Conserved carried concluded) (hfinished : after.finished = before.finished)
    (hcancelled : before.cancelled = true → after.cancelled = true) (hbuffered : after.buffered = before.buffered)
    (hemitted : after.emitted = before.emitted) (hleftover : after.leftover = before.leftover) :
    after.Conserved carried concluded := by
  have hlive (hc : after.cancelled = false) : before.cancelled = false := by
    cases hb : before.cancelled with
    | false => rfl
    | true =>
        rw [hcancelled hb] at hc
        cases hc
  refine ⟨fun hf hc => ?_, fun hf hc => ?_, fun hc => ?_⟩
  · rw [hbuffered, hemitted]
    exact h.running (hfinished ▸ hf) (hlive hc)
  · rw [hbuffered, hemitted, hleftover]
    exact h.ended (hfinished ▸ hf) (hlive hc)
  · rw [hbuffered, hfinished]
    exact h.final hc

-- A call on which nothing was written yet.
theorem ToolCall.Conserved.fresh {found : ToolCall} (hfinished : found.finished = false) (hbuffered : found.buffered = [])
    (hemitted : found.emitted = []) {concluded : Prop} (hconcluded : ¬concluded) : found.Conserved [] concluded := by
  refine ⟨fun _ _ => ?_, fun hf _ => ?_, fun hc => absurd hc hconcluded⟩
  · rw [hbuffered, hemitted, List.nil_append]
  · rw [hfinished] at hf
    cases hf

theorem opened_fresh (s : Transport) (frame : JsonRpcFrame) (id : RequestId) :
    (s.opened frame id).1.finished = false ∧ (s.opened frame id).1.buffered = [] ∧
      (s.opened frame id).1.emitted = [] := by
  unfold opened
  cases issuedSession frame with
  | none => exact ⟨rfl, rfl, rfl⟩
  | some sessionId => exact ⟨rfl, rfl, rfl⟩

theorem Conserves.opens (h : Conserves s) (frame : JsonRpcFrame) (id : RequestId) : Conserves (s.takeCall frame id) := by
  refine ⟨fun written hmem call hcallOf => ?_, h.read, fun call found hfound hmodern => ?_⟩
  · have hlt := h.named written hmem call hcallOf
    change call < (s.calls ++ [(s.opened frame id).1]).length
    rw [List.length_append]
    omega
  · rcases Heap.getElem?_append_iff.mp hfound with hold | ⟨rfl, rfl⟩
    · exact h.calls call found hold hmodern
    · obtain ⟨hnone, hquiet⟩ := h.absent (Nat.le_refl s.calls.length)
      obtain ⟨hfinished, hbuffered, hemitted⟩ := opened_fresh s frame id
      change (s.opened frame id).1.Conserved (s.carried s.calls.length) (s.concludedWith s.calls.length)
      rw [hnone]
      exact .fresh hfinished hbuffered hemitted hquiet

-- A frame that carries what was buffered.
theorem Conserves.carries (h : Conserves s) {written : Written} (hcall : s.calls[call]? = some found)
    (hcalls : s'.calls = s.calls.modify call change) (hwritten : s'.written = s.written ++ [written])
    (hnamed : written.callOf = some call) (hevents : ∀ other, written.eventsOf other =
      if call = other then found.buffered else [])
    (hread : found.buffered ≠ [] → carriedEvents written.frame = some (eventsJson found.buffered))
    (hends : written.concludes call → found.finished = true)
    (hmodern : ∀ before, (change before).modern = before.modern) (hbuffered : (change found).buffered = [])
    (hfinished : (change found).finished = found.finished) (hcancelled : (change found).cancelled = found.cancelled)
    (hemitted : (change found).emitted = found.emitted) (hleftover : (change found).leftover = found.leftover) :
    Conserves s' := by
  refine h.update hcalls hwritten (fun other hmem index hindex => ?_) (fun other hmem index hindex => ?_) hmodern
    fun before hbefore hm hold => ?_
  · obtain rfl := List.mem_singleton.mp hmem
    exact ⟨Option.some_inj.mp (hindex.symm.trans hnamed), Heap.lt_of_getElem? hcall⟩
  · obtain rfl := List.mem_singleton.mp hmem
    rw [hevents] at hindex ⊢
    by_cases hsame : call = index
    · rw [if_pos hsame] at hindex ⊢
      exact hread hindex
    · rw [if_neg hsame] at hindex
      exact absurd rfl hindex
  · obtain rfl := Option.some_inj.mp (hcall.symm.trans hbefore)
    rw [List.flatMap_singleton, hevents, if_pos rfl]
    refine ⟨fun hf hc => ?_, fun hf hc => ?_, fun hc => ?_⟩
    · rw [hbuffered, hemitted, List.append_nil]
      exact hold.running (hfinished ▸ hf) (hcancelled ▸ hc)
    · rw [hbuffered, hemitted, hleftover, List.append_nil]
      exact hold.ended (hfinished ▸ hf) (hcancelled ▸ hc)
    · refine ⟨?_, hbuffered⟩
      rw [hfinished]
      rcases hc with hbefore' | ⟨other, hmem, hconcludes⟩
      · exact (hold.final hbefore').1
      · obtain rfl := List.mem_singleton.mp hmem
        exact hends hconcludes

-- An event that joins the buffer.
theorem ToolCall.Conserved.grows {carried : List ToolEvent} {concluded : Prop} {before after : ToolCall} {event : ToolEvent}
    (h : before.Conserved carried concluded) (hopen : before.finished = false) (hlive : before.cancelled = false)
    (hfinished : after.finished = false) (hbuffered : after.buffered = before.buffered ++ [event])
    (hemitted : after.emitted = before.emitted ++ [event]) : after.Conserved carried concluded := by
  refine ⟨fun _ _ => ?_, fun hf _ => ?_, fun hc => ?_⟩
  · rw [hbuffered, hemitted, ← List.append_assoc, h.running hopen hlive]
  · rw [hfinished] at hf
    cases hf
  · have hended := (h.final hc).1
    rw [hopen] at hended
    cases hended

-- The handler concludes: the attempts that no round carried are dropped.
theorem ToolCall.Conserved.finishes {carried : List ToolEvent} {concluded : Prop} {before : ToolCall}
    (h : before.Conserved carried concluded) (hopen : before.finished = false) (answer : JsonRpcFrame) :
    (abandoning (concluding before answer)).Conserved carried concluded := by
  refine ⟨fun hf _ => ?_, fun _ hlive => ⟨carried, ?_, rfl⟩, fun hc => ?_⟩
  · cases hf
  · exact (h.running hopen hlive).symm
  · have hended := (h.final hc).1
    rw [hopen] at hended
    cases hended

theorem Move.conserves (hmove : Move config s s') (h : Conserves s) : Conserves s' := by
  cases hmove with
  | aside haside =>
      obtain ⟨plain, hwritten, hplain⟩ := haside.written
      have hsame : s'.calls = s.calls.modify 0 id := by rw [haside.calls, List.modify_id]
      exact h.silent hsame hwritten (fun written hmem => callOf_plain (hplain written hmem)) (fun _ => rfl)
        fun _ _ _ hold => hold
  | opens frame id => exact h.opens frame id
  | negotiates hcall hresult =>
      obtain ⟨sessions, rfl⟩ := negotiate_eq hresult
      exact h.silent rfl (List.append_nil _).symm (by simp) (fun _ => rfl) fun _ _ _ hold =>
        hold.same rfl id rfl rfl rfl
  | @notes _ found event hcall hlost =>
      refine h.silent rfl (List.append_nil _).symm (by simp) (fun _ => rfl) fun before hbefore hmodern hold => ?_
      obtain rfl := Option.some_inj.mp (hcall.symm.trans hbefore)
      rcases hlost hmodern with hfinished | hcancelled
      · exact hold.same rfl id rfl (if_pos hfinished) rfl
      · refine ⟨fun _ hlive => ?_, fun _ hlive => ?_, hold.final⟩
        · exact absurd (hcancelled.symm.trans hlive) (by simp)
        · exact absurd (hcancelled.symm.trans hlive) (by simp)
  | @waits _ found event hcall hnegotiated hattempt hmodern hfinished hcancelled =>
      rw [waits_eq hcall hmodern hfinished hcancelled]
      refine h.silent rfl (List.append_nil _).symm (by simp) (fun _ => rfl) fun before hbefore _ hold => ?_
      obtain rfl := Option.some_inj.mp (hcall.symm.trans hbefore)
      exact @ToolCall.Conserved.grows _ _ found _ event hold hfinished hcancelled hfinished rfl rfl
  | @buffers _ found event hcall hnegotiated hmodern hfinished hcancelled =>
      rw [buffers_eq hcall hmodern hfinished hcancelled]
      refine h.silent rfl (List.append_nil _).symm (by simp) (fun _ => rfl) fun before hbefore _ hold => ?_
      obtain rfl := Option.some_inj.mp (hcall.symm.trans hbefore)
      exact @ToolCall.Conserved.grows _ _ found _ event hold hfinished hcancelled hfinished rfl rfl
  | tells event frame hcall hnegotiated => exact h.tells event frame (Heap.lt_of_getElem? hcall)
  | asks event hcall hmodern => exact h.congr rfl rfl
  | endsRound scheduled hcall hopen hround hbuffered hfresh htracked =>
      exact h.carries hcall rfl rfl rfl (fun _ => rfl) (fun _ => roundFrame_carries _ _ _ _) (fun hnot => absurd hnot id)
        (fun _ => rfl) rfl rfl rfl rfl rfl
  | unschedules hcall hidle =>
      exact h.silent rfl (List.append_nil _).symm (by simp) (fun _ => rfl) fun _ _ _ hold =>
        hold.same rfl id rfl rfl rfl
  | resumes id frame hopen =>
      obtain ⟨-, ⟨before, hcall, -⟩, -⟩ := openRound_eq_some.mp hopen
      obtain ⟨accepting, heq⟩ := resumes_eq hcall id frame
      rw [heq]
      exact h.silent rfl (List.append_nil _).symm (by simp) (fun _ => rfl) fun _ _ _ hold =>
        hold.same rfl (fun hc => hc) rfl rfl rfl
  | finishes answer hcall hfinished =>
      refine h.silent rfl (List.append_nil _).symm (by simp) (fun _ => rfl) fun before hbefore _ hold => ?_
      obtain rfl := Option.some_inj.mp (hcall.symm.trans hbefore)
      exact hold.finishes hfinished answer
  | concludes answer frame hcall hfinished hcarries hanswer hsame =>
      exact h.carries hcall rfl rfl rfl (fun _ => rfl) hcarries (fun _ => hfinished) (fun _ => rfl) rfl rfl rfl rfl rfl
  | suspends answer inbound hcall hfinished hanswer => exact h.congr rfl rfl
  | releases final hcall htracked hfinished =>
      rw [release_eq hcall htracked]
      exact h.silent rfl (List.append_nil _).symm (by simp) (fun _ => rfl) fun _ _ _ hold =>
        hold.same rfl id rfl rfl rfl
  | cancels call =>
      cases hcall : s.calls[call]? with
      | none =>
          rw [cancel_none hcall]
          exact h
      | some before =>
          by_cases htracked : s.tracked.get before.originalId = some call
          · rw [cancel_eq hcall htracked]
            exact h.silent rfl (List.append_nil _).symm (by simp) (fun _ => rfl) fun _ _ _ hold =>
              hold.same rfl (fun _ => rfl) rfl rfl rfl
          · rw [cancel_untracked hcall htracked]
            exact h.silent rfl (List.append_nil _).symm (by simp) (fun _ => rfl) fun _ _ _ hold =>
              hold.same rfl (fun _ => rfl) rfl rfl rfl
  | holds held hcall hheld =>
      exact h.silent rfl (List.append_nil _).symm (by simp) (fun _ => rfl) fun _ _ _ hold =>
        hold.same rfl id rfl rfl rfl
  | settles hprogress => exact h.congr rfl rfl
  | dropsAll hnone => exact h.congr rfl rfl

theorem Conserves.empty : Conserves .empty := by
  refine ⟨?_, ?_, ?_⟩
  · intro written hmem
    cases hmem
  · intro written hmem
    cases hmem
  · intro call found hfound
    cases hfound

theorem TransportRun.conserves {actions : List TransportAction} (hrun : TransportRun config actions s) : Conserves s :=
  hrun.keeps .empty fun _ _ _ hs hmove => hmove.conserves hs

end

section

variable {config : TransportConfig} {s : Transport} {actions : List TransportAction} {call : Nat} {found : ToolCall}

def outcomesIn (events : List ToolEvent) : List ToolEvent := events.filter fun event => !event.isAttempt

theorem ToolCall.Conserved.outcomes {carried : List ToolEvent} {concluded : Prop} (h : found.Conserved carried concluded)
    (hlive : found.cancelled = false) : outcomesIn (carried ++ found.buffered) = outcomesIn found.emitted := by
  by_cases hfinished : found.finished = true
  · obtain ⟨sent, hemitted, hcarried⟩ := h.ended hfinished hlive
    rw [hemitted, hcarried]
    unfold outcomesIn
    rw [List.filter_append, List.filter_append, List.filter_filter]
    simp only [Bool.and_self]
  · rw [h.running (by simpa using hfinished) hlive]

theorem ToolCall.Conserved.ordered {carried : List ToolEvent} {concluded : Prop} (h : found.Conserved carried concluded)
    (hlive : found.cancelled = false) : List.Sublist (carried ++ found.buffered) found.emitted := by
  by_cases hfinished : found.finished = true
  · obtain ⟨sent, hemitted, hcarried⟩ := h.ended hfinished hlive
    rw [hemitted, hcarried]
    exact List.filter_sublist.append_left sent
  · rw [h.running (by simpa using hfinished) hlive]

-- Whatever the handlers, the peer, the timers and the connection do, in any order: the rounds
-- and the final result of a call that was not cancelled carry its events as they were emitted,
-- once each and in that order, and only an attempt that no round carried before its handler
-- concluded is left out.
theorem events_conserved (hrun : TransportRun config actions s) (hcall : s.calls[call]? = some found)
    (hmodern : found.modern = true) (hlive : found.cancelled = false) :
    (found.finished = false → s.carried call ++ found.buffered = found.emitted) ∧
      List.Sublist (s.carried call ++ found.buffered) found.emitted ∧
      outcomesIn (s.carried call ++ found.buffered) = outcomesIn found.emitted ∧
      (s.concludedWith call → found.buffered = []) ∧
      ∀ written ∈ s.written, written.eventsOf call ≠ [] →
        carriedEvents written.frame = some (eventsJson (written.eventsOf call)) := by
  have hconserves := hrun.conserves
  have hcalls := hconserves.calls call found hcall hmodern
  refine ⟨fun hopen => hcalls.running hopen hlive, hcalls.ordered hlive, hcalls.outcomes hlive,
    fun hended => (hcalls.final hended).2, fun written hmem => hconserves.read written hmem call⟩

theorem events_conserved_answered : ∃ s found, Reference.play Reference.seam Reference.auditedCall = some s ∧
    s.calls[0]? = some found ∧ found.emitted.length = 2 ∧
      outcomesIn (s.carried 0 ++ found.buffered) = outcomesIn found.emitted := by
  have htest : (Reference.play Reference.seam Reference.auditedCall).any (Reference.callIs 0 fun found =>
      found.modern && !found.cancelled && found.emitted.length == 2) = true := by decide +kernel
  obtain ⟨s, hplay, hrun, hcalls⟩ := Reference.of_play htest
  obtain ⟨found, hcall, hfound⟩ := Reference.of_callIs hcalls
  simp only [Bool.and_eq_true, Bool.not_eq_true', beq_iff_eq] at hfound
  obtain ⟨⟨hmodern, hlive⟩, hemitted⟩ := hfound
  exact ⟨s, found, hplay, hcall, hemitted, (events_conserved hrun hcall hmodern hlive).2.2.1⟩

end

end AuditableMcp.Mcp
