import AuditableMcp.Mcp.Courses
import AuditableMcp.Reference.Connections

-- A call is answered once, with the frame its handler concluded with.
namespace AuditableMcp.Mcp

open Transport

-- The final frame of a call.
def Written.finalOf (call : Nat) : Written → Bool
  | .final other _ _ _ => other == call
  | _ => false

def Transport.heldIn (s : Transport) (call : Nat) : Nat :=
  if (s.calls[call]?).any (fun found => found.held.isSome) then 1 else 0

-- The final frames of a call: written, held for a retry, or waiting for the send of a round.
def Transport.weight (s : Transport) (call : Nat) : Nat :=
  s.written.countP (Written.finalOf call) + s.suspended.countP (fun suspended => suspended.call == call) + s.heldIn call

-- What a handler that concluded is good for.
def Transport.allowance (s : Transport) (call : Nat) : Nat :=
  if (s.calls[call]?).any (fun found => found.finished) then 1 else 0

-- A step that makes at most one final frame, of the call given.
structure Spends (spent : Option Nat) (s s' : Transport) : Prop where
  weight : ∀ call, s'.weight call ≤ s.weight call + if spent = some call then 1 else 0
  allowance : ∀ call, s.allowance call ≤ s'.allowance call

def Frugal (s : Transport) : Prop := ∀ call, s.weight call ≤ s.allowance call

section

variable {config : TransportConfig} {s s' s'' : Transport} {spent : Option Nat} {call : Nat} {found : ToolCall}
  {change : ToolCall → ToolCall}

theorem Spends.refl (s : Transport) : Spends none s s := ⟨fun call => by simp, fun _ => Nat.le_refl _⟩

theorem Spends.trans (h : Spends none s s') (h' : Spends spent s' s'') : Spends spent s s'' := by
  refine ⟨fun call => ?_, fun call => (h.allowance call).trans (h'.allowance call)⟩
  have hfirst := h.weight call
  have hsecond := h'.weight call
  rw [if_neg (by simp)] at hfirst
  omega

theorem Spends.free (h : Spends spent s s') (h' : Spends none s' s'') : Spends spent s s'' := by
  refine ⟨fun call => ?_, fun call => (h.allowance call).trans (h'.allowance call)⟩
  have hfirst := h.weight call
  have hsecond := h'.weight call
  rw [if_neg (by simp)] at hsecond
  omega

theorem Frugal.keeps (h : Frugal s) (hstep : Spends none s s') : Frugal s' := by
  intro call
  have hweight := hstep.weight call
  rw [if_neg (by simp)] at hweight
  exact (hweight.trans (h call)).trans (hstep.allowance call)

-- A change of one call.
theorem heldIn_modify (hcalls : s'.calls = s.calls.modify call change)
    (hheld : ∀ before, (change before).held.isSome = true → before.held.isSome = true) (other : Nat) :
    s'.heldIn other ≤ s.heldIn other := by
  unfold heldIn
  rw [hcalls, List.getElem?_modify]
  cases s.calls[other]? with
  | none => simp
  | some before =>
      by_cases hsame : call = other
      · simp only [hsame, if_true, Option.any_some]
        by_cases hafter : (change before).held.isSome = true
        · simp [hafter, hheld before hafter]
        · simp [hafter]
      · simp [hsame]

theorem allowance_modify (hcalls : s'.calls = s.calls.modify call change)
    (hfinished : ∀ before, before.finished = true → (change before).finished = true) (other : Nat) :
    s.allowance other ≤ s'.allowance other := by
  unfold allowance
  rw [hcalls, List.getElem?_modify]
  cases s.calls[other]? with
  | none => simp
  | some before =>
      by_cases hsame : call = other
      · simp only [hsame, if_true, Option.any_some]
        by_cases hbefore : before.finished = true
        · simp [hbefore, hfinished before hbefore]
        · simp [hbefore]
      · simp [hsame]

theorem spends_modify {more : List Written} (hcalls : s'.calls = s.calls.modify call change)
    (hwritten : s'.written = s.written ++ more) (hmore : ∀ other, more.countP (Written.finalOf other) = 0)
    (hsuspended : s'.suspended = s.suspended)
    (hheld : ∀ before, (change before).held.isSome = true → before.held.isSome = true)
    (hfinished : ∀ before, before.finished = true → (change before).finished = true) : Spends none s s' := by
  refine ⟨fun other => ?_, allowance_modify hcalls hfinished⟩
  have hless := heldIn_modify hcalls hheld other
  have hnone := hmore other
  unfold weight
  rw [hwritten, hsuspended, List.countP_append, hnone]
  omega

theorem spends_same (hcalls : s'.calls = s.calls) (hwritten : s'.written = s.written)
    (hsuspended : s'.suspended = s.suspended) : Spends none s s' := by
  have hnothing : s'.written = s.written ++ [] := by rw [hwritten, List.append_nil]
  have hsame : s'.calls = s.calls.modify 0 id := by rw [hcalls, List.modify_id]
  exact spends_modify hsame hnothing (fun _ => rfl) hsuspended (fun _ h => h) fun _ h => h

-- Where the final frame of a call is written, held or suspended.
theorem spends_one {more : List Written} {later : List Suspended} (hcalls : s'.calls = s.calls)
    (hwritten : s'.written = s.written ++ more) (hsuspended : s'.suspended = s.suspended ++ later)
    (hone : ∀ other, more.countP (Written.finalOf other) + later.countP (fun suspended => suspended.call == other) ≤
      if call = other then 1 else 0) : Spends (some call) s s' := by
  refine ⟨fun other => ?_, fun other => ?_⟩
  · have hless := hone other
    have hsame : s'.heldIn other = s.heldIn other := by
      unfold heldIn
      rw [hcalls]
    unfold weight
    rw [hwritten, hsuspended, hsame, List.countP_append, List.countP_append]
    simp only [Option.some_inj]
    omega
  · unfold allowance
    rw [hcalls]

theorem spends_final (s : Transport) (call : Nat) (answer frame : JsonRpcFrame) (events : List ToolEvent) :
    Spends (some call) s (s.write (.final call answer events frame)) := by
  refine spends_one (s := s) rfl rfl (List.append_nil _).symm fun other => ?_
  by_cases hsame : call = other
  · simp [Written.finalOf, hsame]
  · simp [Written.finalOf, hsame]

theorem spends_suspended (s : Transport) (suspended : Suspended) :
    Spends (some suspended.call) s { s with suspended := s.suspended ++ [suspended] } := by
  refine spends_one (s := s) rfl (List.append_nil _).symm rfl fun other => ?_
  by_cases hsame : suspended.call = other
  · simp [hsame]
  · simp [hsame]

theorem spends_held {answer : JsonRpcFrame} (hcalls : s'.calls = s.calls.modify call fun found => { found with held := some answer })
    (hwritten : s'.written = s.written) (hsuspended : s'.suspended = s.suspended) : Spends (some call) s s' := by
  refine ⟨fun other => ?_, allowance_modify hcalls fun _ h => h⟩
  have hheld : s'.heldIn other ≤ s.heldIn other + if call = other then 1 else 0 := by
    by_cases hsame : call = other
    · rw [if_pos hsame]
      unfold heldIn
      split <;> split <;> omega
    · rw [if_neg hsame]
      unfold heldIn
      rw [hcalls, List.getElem?_modify_ne _ _ hsame]
      omega
  unfold weight
  rw [hwritten, hsuspended]
  simp only [Option.some_inj]
  omega

end

section

variable {config : TransportConfig} {s s' : Transport} {call : Nat} {found : ToolCall}

theorem alter_spends (s : Transport) (call : Nat) {change : ToolCall → ToolCall}
    (hheld : ∀ before, (change before).held.isSome = true → before.held.isSome = true)
    (hfinished : ∀ before, before.finished = true → (change before).finished = true) : Spends none s (s.alter call change) :=
  spends_modify rfl (List.append_nil _).symm (fun _ => rfl) rfl hheld hfinished

theorem release_spends (s : Transport) (call : Nat) (final : Bool) : Spends none s (s.release call final) := by
  unfold Transport.release
  split
  · exact .refl s
  · split
    · exact spends_modify rfl (List.append_nil _).symm (fun _ => rfl) rfl (fun _ h => by cases h) fun _ h => h
    · exact .refl s

theorem cancelled_spends (s : Transport) (call : Nat) :
    Spends none s ((s.alter call fun found => { found with cancelled := true }).release call true) := by
  have hmarked : Spends none s (s.alter call fun found => { found with cancelled := true }) :=
    alter_spends s call (fun _ h => h) fun _ h => h
  exact hmarked.trans (release_spends _ call true)

theorem evictions_spends (entries : List (RequestId × Nat)) (s : Transport) :
    Spends none s (entries.foldl (fun s entry => s.evictConcluded entry.2) s) := by
  induction entries generalizing s with
  | nil => exact .refl s
  | cons entry rest ih =>
      refine Spends.trans ?_ (ih (s.evictConcluded entry.2))
      unfold evictConcluded
      split
      · exact .refl s
      · exact cancelled_spends s entry.2

theorem keepConcluded_spends (hcall : s.calls[call]? = some found) (answer : JsonRpcFrame) :
    Spends (some call) s (s.keepConcluded call answer) := by
  unfold keepConcluded
  simp only [hcall]
  have hheld : Spends (some call) s
      { s.alter call fun found => { found with held := some answer } with
        concluded := (s.concluded.delete found.originalId).set found.originalId call } := spends_held rfl rfl rfl
  exact hheld.free (evictions_spends _ _)

theorem endRound_spends (s : Transport) (call : Nat) (token : JsString) : Spends none s (s.endRound call token) := by
  unfold endRound
  split
  · exact .refl s
  · split
    · exact .refl s
    · split
      · exact .refl s
      · exact spends_modify rfl rfl (fun _ => rfl) rfl (fun _ h => h) fun _ h => h

theorem conclude_spends (hcall : s.calls[call]? = some found) (answer : JsonRpcFrame) (token : JsString) (inbound : Bool) :
    Spends (some call) s (s.conclude call answer token inbound) := by
  unfold conclude
  simp only [hcall]
  split
  · have hsuspended : s.suspended = (s.endRound call token).suspended := (endRound_suspended s call token).symm
    rw [hsuspended]
    exact (endRound_spends s call token).trans (spends_suspended (s.endRound call token) ⟨call, answer, inbound⟩)
  · have hemptied : Spends none s (s.alter call fun found => { found with buffered := [] }) :=
      alter_spends s call (fun _ h => h) fun _ h => h
    cases found.currentId with
    | none =>
        refine Spends.trans hemptied ⟨fun other => ?_, (release_spends _ call _).allowance⟩
        have hless := (release_spends (s.alter call fun found => { found with buffered := [] }) call
          (!answer.continues)).weight other
        rw [if_neg (by simp)] at hless
        exact hless.trans (Nat.le_add_right _ _)
    | some requestId => exact (hemptied.trans (spends_final _ call answer _ _)).free (release_spends _ call _)

theorem finish_spends (hcall : s.calls[call]? = some found) (answer : JsonRpcFrame) (token : JsString) :
    Spends (some call) s (s.finish call answer token) := by
  have hafter : ({ s.alter call fun found => abandoning found with
      attempts := unanswered s.attempts found.nextAwaiting } : Transport).calls[call]? = some (abandoning found) :=
    Heap.modify_self hcall
  have habandoned : Spends none s { s.alter call fun found => abandoning found with
      attempts := unanswered s.attempts found.nextAwaiting } :=
    spends_modify rfl (List.append_nil _).symm (fun _ => rfl) rfl (fun _ h => h) fun _ h => h
  unfold finish
  simp only [hcall]
  change Spends (some call) s (if found.round.isSome = true then
    ({ s.alter call fun found => abandoning found with
      attempts := unanswered s.attempts found.nextAwaiting } : Transport).keepConcluded call answer
    else ({ s.alter call fun found => abandoning found with
      attempts := unanswered s.attempts found.nextAwaiting } : Transport).conclude call answer token false)
  split
  · exact habandoned.trans (keepConcluded_spends hafter answer)
  · exact habandoned.trans (conclude_spends hafter answer token false)

-- The handler's frame is the one its call is answered with.
theorem outbound_frugal (h : Frugal s) (frame : JsonRpcFrame) (token : JsString) :
    Frugal (s.outbound config frame token) := by
  have hpassed (frame : JsonRpcFrame) : Frugal (s.write (.passed frame)) := by
    have hsame : s.calls = s.calls.modify 0 id := (List.modify_id ..).symm
    exact h.keeps (spends_modify hsame rfl (fun _ => rfl) rfl (fun _ h => h) fun _ h => h)
  unfold outbound
  split
  · exact hpassed frame
  · split
    · exact hpassed frame
    · split
      · exact hpassed _
      · split
        · exact h.keeps (spends_same rfl rfl rfl)
        · split
          · exact hpassed frame
          · rename_i call htracked
            split
            · exact h
            · rename_i found hcall
              split
              · exact hpassed frame
              · rename_i hopen
                have hfinished : found.finished = false := by
                  simp only [not_or, Bool.not_eq_true] at hopen
                  exact hopen.2
                have hconcluding : (s.alter call fun found => concluding found frame).calls[call]? =
                    some (concluding found frame) := Heap.modify_self hcall
                have hfirst : Spends none s (s.alter call fun found => concluding found frame) :=
                  alter_spends s call (fun _ h => h) fun _ _ => rfl
                have hspends {s' : Transport} (hlast : Spends (some call) (s.alter call fun found => concluding found frame) s') :
                    Frugal s' := by
                  intro other
                  have hboth := (hfirst.trans hlast).weight other
                  have hgrows := (hfirst.trans hlast).allowance other
                  have hbefore := h other
                  by_cases hsame : call = other
                  · subst hsame
                    have hnone : s.allowance call = 0 := by
                      unfold allowance
                      rw [hcall]
                      simp [hfinished]
                    have hone : (s.alter call fun found => concluding found frame).allowance call = 1 := by
                      unfold allowance
                      rw [hconcluding]
                      rfl
                    have hlater := hlast.allowance call
                    rw [if_pos rfl] at hboth
                    omega
                  · rw [if_neg fun heq => hsame (Option.some_inj.mp heq)] at hboth
                    omega
                split
                · exact hspends (finish_spends hconcluding frame token)
                · exact hspends ((spends_final _ call frame frame []).free (release_spends _ call _))

end

-- A step that takes up a final frame to make it again.
structure Earns (call : Nat) (s s' : Transport) : Prop where
  weight : ∀ other, (s'.weight other + if call = other then 1 else 0) ≤ s.weight other
  allowance : ∀ other, s.allowance other ≤ s'.allowance other

section

variable {config : TransportConfig} {s s' s'' : Transport} {call : Nat} {found : ToolCall} {action : TransportAction}

theorem Earns.spends (h : Earns call s s') (h' : Spends (some call) s' s'') : Spends none s s'' := by
  refine ⟨fun other => ?_, fun other => (h.allowance other).trans (h'.allowance other)⟩
  have hfirst := h.weight other
  have hsecond := h'.weight other
  simp only [Option.some_inj] at hsecond
  rw [if_neg (by simp)]
  omega

theorem takeHeld_earns {held : JsonRpcFrame} (hcall : s.calls[call]? = some found) (hheld : found.held = some held) :
    Earns call s (s.takeHeld call found) := by
  have hallowance (other : Nat) : s.allowance other ≤ (s.takeHeld call found).allowance other := by
    have hcalls : (s.takeHeld call found).calls = s.calls.modify call fun found => { found with held := none } := rfl
    exact allowance_modify hcalls (fun _ h => h) other
  refine ⟨fun other => ?_, hallowance⟩
  have htaken : (s.takeHeld call found).heldIn other + (if call = other then 1 else 0) ≤ s.heldIn other := by
    unfold heldIn
    by_cases hsame : call = other
    · subst hsame
      have hafter : (s.takeHeld call found).calls[call]? = some { found with held := none } := Heap.modify_self hcall
      rw [hafter, hcall]
      simp [hheld]
    · have hafter : (s.takeHeld call found).calls[other]? = s.calls[other]? := List.getElem?_modify_ne _ _ hsame
      rw [hafter, if_neg hsame]
      omega
  have hless : (s.takeHeld call found).weight other + (if call = other then 1 else 0) =
      s.written.countP (Written.finalOf other) + s.suspended.countP (fun suspended => suspended.call == other) +
        ((s.takeHeld call found).heldIn other + if call = other then 1 else 0) := by
    unfold weight
    exact Nat.add_assoc ..
  rw [hless]
  unfold weight
  omega

theorem resumed_earns {before after : List Suspended} {suspended : Suspended}
    (hsuspended : s.suspended = before ++ suspended :: after) : Earns suspended.call s
      { s with suspended := before ++ after, handling := s.handling && !suspended.inbound } := by
  refine ⟨fun other => ?_, fun _ => Nat.le_refl _⟩
  have hcount : s.suspended.countP (fun suspended => suspended.call == other) =
      (before ++ after).countP (fun suspended => suspended.call == other) + if suspended.call = other then 1 else 0 := by
    rw [hsuspended, List.countP_append, List.countP_append, List.countP_cons]
    simp only [beq_iff_eq]
    omega
  have hless : ({ s with suspended := before ++ after, handling := s.handling && !suspended.inbound } : Transport).weight
      other = s.written.countP (Written.finalOf other) +
        (before ++ after).countP (fun suspended => suspended.call == other) + s.heldIn other := rfl
  rw [hless]
  unfold weight
  rw [hcount]
  omega

theorem spends_plain {more : List Written} (hcalls : s'.calls = s.calls) (hwritten : s'.written = s.written ++ more)
    (hmore : ∀ other, more.countP (Written.finalOf other) = 0) (hsuspended : s'.suspended = s.suspended) :
    Spends none s s' := by
  have hsame : s'.calls = s.calls.modify 0 id := by rw [hcalls, List.modify_id]
  exact spends_modify hsame hwritten hmore hsuspended (fun _ h => h) fun _ h => h

theorem proceed_spends (hcall : s.calls[call]? = some found) (token : JsString) : Spends none s (s.proceed call token) := by
  unfold proceed
  simp only [hcall]
  cases hheld : found.held with
  | none =>
      dsimp only
      split
      · exact alter_spends s call (fun _ h => h) fun _ h => h
      · exact .refl s
  | some held =>
      have hafter : (s.takeHeld call found).calls[call]? = some { found with held := none } := Heap.modify_self hcall
      exact (takeHeld_earns hcall hheld).spends (conclude_spends hafter held token true)

theorem takeRetry_spends (s : Transport) (frame : JsonRpcFrame) (id : RequestId) (state token : JsString) :
    Spends none s (s.takeRetry frame id state token) := by
  unfold takeRetry
  cases hopen : s.openRound state with
  | none => exact spends_plain rfl rfl (fun _ => rfl) rfl
  | some entry =>
      obtain ⟨call, round⟩ := entry
      obtain ⟨-, ⟨found, hcall, -⟩, -⟩ := openRound_eq_some.mp hopen
      obtain ⟨accepting, heq⟩ := @resume_eq s call round found hcall id frame
      have hresumed : ∃ after, (s.resume call round id frame).calls[call]? = some after := by
        rw [heq]
        exact ⟨_, Heap.modify_self hcall⟩
      obtain ⟨after, hafter⟩ := hresumed
      have hfirst : Spends none s (s.resume call round id frame) := by
        rw [heq]
        exact spends_modify rfl (List.append_nil _).symm (fun _ => rfl) rfl (fun _ h => h) fun _ h => h
      exact hfirst.trans (proceed_spends hafter token)

theorem takeCall_spends (s : Transport) (frame : JsonRpcFrame) (id : RequestId) : Spends none s (s.takeCall frame id) := by
  have hnew : (s.opened frame id).1.held = none ∧ (s.opened frame id).1.finished = false := by
    unfold opened
    cases issuedSession frame <;> exact ⟨rfl, rfl⟩
  have hcalls : (s.takeCall frame id).calls = s.calls ++ [(s.opened frame id).1] := rfl
  have hsame (test : ToolCall → Bool) (hnot : test (s.opened frame id).1 = false) (call : Nat) :
      ((s.takeCall frame id).calls[call]?).any test = (s.calls[call]?).any test := by
    rw [hcalls]
    rcases Nat.lt_trichotomy call s.calls.length with hlt | heq | hgt
    · rw [List.getElem?_append_left hlt]
    · subst heq
      simp [hnot]
    · rw [List.getElem?_eq_none_iff.mpr (Nat.le_of_lt hgt), List.getElem?_eq_none_iff.mpr]
      simp only [List.length_append, List.length_singleton]
      omega
  have hheld (call : Nat) : (s.takeCall frame id).heldIn call = s.heldIn call := by
    unfold heldIn
    rw [hsame _ (by rw [hnew.1]; rfl)]
  refine ⟨fun call => Nat.le_add_right_of_le (Nat.le_of_eq ?_), fun call => Nat.le_of_eq ?_⟩
  · unfold weight
    rw [hheld]
    rfl
  · unfold allowance
    rw [hsame _ hnew.2]

theorem cancel_spends (s : Transport) (frame : JsonRpcFrame) : Spends none s (s.cancel frame) := by
  unfold Transport.cancel
  split
  · exact spends_same rfl rfl rfl
  · rename_i call _
    split
    · exact cancelled_spends s call
    · split
      · exact cancelled_spends s call
      · exact (cancelled_spends s call).trans (spends_same rfl rfl rfl)

theorem inbound_spends (s : Transport) (frame : JsonRpcFrame) (token : JsString) : Spends none s (s.inbound frame token) := by
  unfold inbound
  split
  · split
    · exact spends_same rfl rfl rfl
    · split
      · split
        · exact takeRetry_spends s frame _ _ token
        · exact takeCall_spends s frame _
      · exact spends_same rfl rfl rfl
  · split
    · unfold takeAnswer
      split <;> exact spends_same rfl rfl rfl
    · exact spends_same rfl rfl rfl
  · split
    · exact cancel_spends s frame
    · exact spends_same rfl rfl rfl
  · exact spends_same rfl rfl rfl

theorem sendAttempt_spends (s : Transport) (call : Nat) (found : ToolCall) (event : ToolEvent) :
    Spends none s (s.sendAttempt call found event) := by
  unfold sendAttempt
  split
  · exact .refl s
  · dsimp only
    split
    · have hwaiting : Spends none s
          { s with attempts := s.attempts ++ [⟨call, event, none, false⟩] } := spends_same rfl rfl rfl
      refine hwaiting.trans (Spends.trans ?_ (alter_spends _ call (fun _ h => h) fun _ h => h))
      exact alter_spends _ call (fun _ h => h) fun _ h => h
    · exact spends_plain rfl rfl (fun _ => rfl) rfl

theorem sendOutcome_spends (s : Transport) (call : Nat) (found : ToolCall) (event : ToolEvent) :
    Spends none s (s.sendOutcome call found event) := by
  unfold sendOutcome
  split
  · exact .refl s
  · split
    · exact alter_spends s call (fun _ h => h) fun _ h => h
    · exact spends_plain rfl rfl (fun _ => rfl) rfl

theorem connectionLost_spends (s : Transport) : Spends none s s.connectionLost := by
  have hreleases (entries : List (RequestId × Nat)) (s : Transport) : Spends none s (entries.foldl (fun s entry =>
      (s.alter entry.2 fun found => { found with cancelled := true }).release entry.2 true) s) := by
    induction entries generalizing s with
    | nil => exact .refl s
    | cons entry rest ih => exact (cancelled_spends s entry.2).trans (ih _)
  exact (hreleases _ s).trans (spends_same rfl rfl rfl)

theorem roundTimer_spends (s : Transport) (call : Nat) (found : ToolCall) (token : JsString) :
    Spends none s (s.roundTimer call found token) := by
  have hfired : Spends none s (s.alter call fun found => { found with roundScheduled := false }) :=
    alter_spends s call (fun _ h => h) fun _ h => h
  unfold roundTimer
  dsimp only
  split
  · exact hfired
  · exact hfired.trans (endRound_spends _ call token)

theorem TransportStep.frugal (hstep : TransportStep config s action s') (hconcluding : Concluding s) (h : Frugal s) :
    Frugal s' := by
  have hnoted (call : Nat) (event : ToolEvent) : Spends none s (s.note call event) :=
    alter_spends s call (fun _ h => h) fun _ h => h
  cases hstep with
  | receives hturn htoken => exact h.keeps (inbound_spends s _ _)
  | negotiates hcall hresult =>
      obtain ⟨sessions, rfl⟩ := negotiate_eq hresult
      exact h.keeps (spends_modify rfl (List.append_nil _).symm (fun _ => rfl) rfl (fun _ h => h) fun _ h => h)
  | attempts hcall hnegotiated hattempt => exact h.keeps ((hnoted _ _).trans (sendAttempt_spends _ _ _ _))
  | records hcall hnegotiated => exact h.keeps ((hnoted _ _).trans (sendOutcome_spends _ _ _ _))
  | sends htoken => exact outbound_frugal h _ _
  | ends hcall hscheduled htoken => exact h.keeps (roundTimer_spends s _ _ _)
  | expires hattempt hopen => exact h.keeps (spends_same rfl rfl rfl)
  | givesUp hattempt habandoned => exact h.keeps (spends_same rfl rfl rfl)
  | fails hattempt hpending => exact h.keeps (spends_same rfl rfl rfl)
  | @resumes before after suspended hsuspended =>
      obtain ⟨found, hcall, -⟩ := hconcluding suspended (by rw [hsuspended]; simp)
      have hafter : ({ s with suspended := before ++ after, handling := s.handling && !suspended.inbound } :
        Transport).calls[suspended.call]? = some found := hcall
      exact h.keeps ((resumed_earns hsuspended).spends (keepConcluded_spends hafter suspended.answer))
  | goesOn hhandling hnone => exact h.keeps (spends_same rfl rfl rfl)
  | forgets hkey => exact h.keeps (spends_same rfl rfl rfl)
  | disconnects => exact h.keeps (connectionLost_spends s)

theorem TransportRun.frugal {actions : List TransportAction} (hrun : TransportRun config actions s) : Frugal s := by
  induction hrun with
  | start => exact fun _ => Nat.le_refl _
  | step hrun hstep ih => exact hstep.frugal hrun.sound.concluding ih

end

-- What was written as a call's final frame is the handler's.
def Answered (s : Transport) : Prop :=
  ∀ (call : Nat) (answer frame : JsonRpcFrame) (events : List ToolEvent), .final call answer events frame ∈ s.written →
    ∃ found, s.calls[call]? = some found ∧ found.finished = true ∧ found.answer = some answer ∧ SameAnswer answer frame

section

variable {config : TransportConfig} {s s' : Transport} {actions : List TransportAction} {call : Nat} {found : ToolCall}

theorem plain_not_final {written : Written} (h : written.plain) (call : Nat) (answer frame : JsonRpcFrame)
    (events : List ToolEvent) : written ≠ .final call answer events frame := by
  rintro rfl
  exact h

-- What a move writes: no final frame, but where a call is concluded.
theorem Move.finals (hmove : Move config s s') {answer frame : JsonRpcFrame} {events : List ToolEvent}
    (hmem : .final call answer events frame ∈ s'.written) :
    .final call answer events frame ∈ s.written ∨
      ∃ found, s.calls[call]? = some found ∧ found.finished = true ∧ found.answer = some answer ∧ SameAnswer answer frame := by
  cases hmove with
  | aside haside =>
      obtain ⟨plain, hwritten, hplain⟩ := haside.written
      rw [hwritten] at hmem
      rcases List.mem_append.mp hmem with hold | hnew
      · exact Or.inl hold
      · exact absurd rfl (plain_not_final (hplain _ hnew) call answer frame events)
  | opens frame id => exact Or.inl hmem
  | negotiates hcall hresult =>
      obtain ⟨sessions, rfl⟩ := negotiate_eq hresult
      exact Or.inl hmem
  | notes event hcall hlost => exact Or.inl hmem
  | waits hcall hnegotiated hattempt hmodern hfinished hcancelled =>
      rw [waits_eq hcall hmodern hfinished hcancelled] at hmem
      exact Or.inl hmem
  | buffers hcall hnegotiated hmodern hfinished hcancelled =>
      rw [buffers_eq hcall hmodern hfinished hcancelled] at hmem
      exact Or.inl hmem
  | tells event frame hcall hnegotiated =>
      rcases List.mem_append.mp hmem with hold | hnew
      · exact Or.inl hold
      · cases List.mem_singleton.mp hnew
  | asks event hcall hmodern => exact Or.inl hmem
  | endsRound scheduled hcall hopen hround hbuffered hfresh htracked =>
      rcases List.mem_append.mp hmem with hold | hnew
      · exact Or.inl hold
      · cases List.mem_singleton.mp hnew
  | unschedules hcall hidle => exact Or.inl hmem
  | resumes id frame hopen =>
      obtain ⟨-, ⟨before, hcall, -⟩, -⟩ := openRound_eq_some.mp hopen
      obtain ⟨accepting, heq⟩ := resumes_eq hcall id frame
      rw [heq] at hmem
      exact Or.inl hmem
  | finishes answer hcall hfinished => exact Or.inl hmem
  | concludes own frame hcall hfinished hcarries hanswer hsame =>
      rcases List.mem_append.mp hmem with hold | hnew
      · exact Or.inl hold
      · cases List.mem_singleton.mp hnew
        exact Or.inr ⟨_, hcall, hfinished, hanswer, hsame⟩
  | suspends answer inbound hcall hfinished hanswer => exact Or.inl hmem
  | releases final hcall htracked hfinished =>
      rw [release_eq hcall htracked] at hmem
      exact Or.inl hmem
  | cancels other =>
      cases hcall : s.calls[other]? with
      | none =>
          rw [cancel_none hcall] at hmem
          exact Or.inl hmem
      | some before =>
          by_cases htracked : s.tracked.get before.originalId = some other
          · rw [cancel_eq hcall htracked] at hmem
            exact Or.inl hmem
          · rw [cancel_untracked hcall htracked] at hmem
            exact Or.inl hmem
  | holds held hcall hheld => exact Or.inl hmem
  | settles hprogress => exact Or.inl hmem
  | dropsAll hnone => exact Or.inl hmem

theorem Move.answered (hmove : Move config s s') (h : Answered s) : Answered s' := by
  intro call answer frame events hmem
  have hfound : ∃ found, s.calls[call]? = some found ∧ found.finished = true ∧ found.answer = some answer ∧
      SameAnswer answer frame := (hmove.finals hmem).elim (h call answer frame events) id
  obtain ⟨found, hcall, hfinished, hanswer, hsame⟩ := hfound
  obtain ⟨after, hafter, hlater⟩ := hmove.later hcall
  exact ⟨after, hafter, hlater.finished hfinished, (hlater.answer hfinished).trans hanswer, hsame⟩

theorem TransportRun.answered (hrun : TransportRun config actions s) : Answered s := by
  refine hrun.keeps (fun call answer frame events hmem => ?_) fun _ _ _ hs hmove => hmove.answered hs
  cases hmem

-- Whatever comes in between, a retry, an outcomes-only round, an eviction or a late send: a call
-- is answered with at most one final frame, and the frame is the one its handler concluded
-- with, up to the audit member of its `_meta`. Where it is written, none is kept or on its way.
theorem answered_once (hrun : TransportRun config actions s) (hcall : s.calls[call]? = some found) :
    s.written.countP (Written.finalOf call) ≤ 1 ∧
      ∀ answer events frame, .final call answer events frame ∈ s.written →
        found.answer = some answer ∧ SameAnswer answer frame ∧ found.held = none ∧
          ∀ suspended ∈ s.suspended, suspended.call ≠ call := by
  have hweight := hrun.frugal call
  have hallowance : s.allowance call ≤ 1 := by
    unfold allowance
    split <;> omega
  unfold weight at hweight
  refine ⟨by omega, fun answer events frame hmem => ?_⟩
  obtain ⟨found', hcall', -, hanswer, hsame⟩ := hrun.answered call answer frame events hmem
  obtain rfl := Option.some_inj.mp (hcall.symm.trans hcall')
  have hone : 0 < s.written.countP (Written.finalOf call) :=
    List.countP_pos_iff.mpr ⟨_, hmem, by simp [Written.finalOf]⟩
  refine ⟨hanswer, hsame, ?_, fun suspended hsuspended hown => ?_⟩
  · cases hheld : found.held with
    | none => rfl
    | some held =>
        have hin : s.heldIn call = 1 := by
          unfold heldIn
          rw [hcall]
          simp [hheld]
        omega
  · have htwo : 0 < s.suspended.countP (fun suspended => suspended.call == call) :=
      List.countP_pos_iff.mpr ⟨suspended, hsuspended, by simp [hown]⟩
    omega

theorem answered_once_audited : ∃ s : Transport, Reference.play Reference.seam Reference.auditedCall = some s ∧
    s.written.countP (Written.finalOf 0) = 1 := by
  have htest : (Reference.play Reference.seam Reference.auditedCall).any (fun s =>
      decide (0 < s.written.countP (Written.finalOf 0)) && Reference.callIs 0 (fun _ => true) s) = true := by
    decide +kernel
  obtain ⟨s, hplay, hrun, hstate⟩ := Reference.of_play htest
  simp only [Bool.and_eq_true, decide_eq_true_eq] at hstate
  obtain ⟨found, hcall, -⟩ := Reference.of_callIs hstate.2
  have honce := (answered_once hrun hcall).1
  exact ⟨s, hplay, by omega⟩

end

end AuditableMcp.Mcp
