import AuditableMcp.Mcp.HostMoves

-- The tables and the queues of the host's seam: whom they name, and what the work in them is.
namespace AuditableMcp.Mcp.HostSeam

open Receiver

-- `#calls`, `#bySession` and `#held` name calls that have not ended, each under what it goes by
-- now, and `#unclosed` those whose sessions are open.
structure Tables (s : Receiver) : Prop where
  named : ∀ (call : Nat) (found : HostCall), s.heap[call]? = some found → found.sessionId ≠ NO_CALL_IN_FLIGHT
  apart : ∀ (call other : Nat) (found found' : HostCall), s.heap[call]? = some found → s.heap[other]? = some found' →
    found.sessionId = found'.sessionId → call = other
  flight : ∀ (id : RequestId) (call : Nat), s.calls.get id = some call →
    ∃ found, s.heap[call]? = some found ∧ found.ended = false ∧ found.currentId = id
  sessions : ∀ (sessionId : JsString) (call : Nat), s.bySession.get sessionId = some call →
    ∃ found, s.heap[call]? = some found ∧ found.ended = false ∧ found.sessionId = sessionId
  live : ∀ (call : Nat) (found : HostCall), s.heap[call]? = some found → found.ended = false →
    s.bySession.get found.sessionId = some call
  unclosed : ∀ (call : Nat) (found : HostCall), s.heap[call]? = some found → found.closed = false →
    s.unclosed.get found.sessionId = some call
  held : ∀ (state : JsString) (call : Nat), s.held.get state = some call →
    ∃ found responses, s.heap[call]? = some found ∧ found.held = some (state, responses)
  holds : ∀ (call : Nat) (found : HostCall) (state : JsString) (responses : Members), s.heap[call]? = some found →
    found.held = some (state, responses) → s.held.get state = some call ∧ found.ended = false
  heldDistinct : s.held.keys.Nodup
  sessionsDistinct : s.bySession.keys.Nodup
  callsDistinct : s.calls.keys.Nodup

structure Fitted (s : Receiver) : Prop where
  jobs : ∀ (sessionId : JsString), ∀ job ∈ (s.chains sessionId).jobs, job.Fits s sessionId
  doing : ∀ (sessionId : JsString) (doing : Doing), (s.chains sessionId).doing = some doing → doing.Fits s sessionId
  given : ∀ (call : Nat) (found : HostCall) (state : JsString) (responses : Members), s.heap[call]? = some found →
    found.held = some (state, responses) → ∀ entry ∈ responses, s.Given found.sessionId entry

structure Standing (s : Receiver) : Prop where
  tables : Tables s
  fitted : Fitted s

structure HostSound (s : Receiver) : Prop extends Standing s where
  outside : ∀ call ∈ s.outside, ∃ found, s.heap[call]? = some found ∧ found.closed = true

section

variable {s s' s'' : Receiver} {call : Nat} {found : HostCall} {change : HostCall → HostCall} {sessionId other : JsString}

theorem chains_inSession (s : Receiver) (sessionId : JsString) (job : Job) (other : JsString) :
    (s.inSession sessionId job).chains other =
      if other = sessionId then ⟨(s.chains sessionId).doing, (s.chains sessionId).jobs ++ [job]⟩ else s.chains other :=
  Function.update_apply ..

theorem chains_begins (s : Receiver) (sessionId : JsString) (doing : Doing) (other : JsString) :
    (s.begins sessionId doing).chains other =
      if other = sessionId then ⟨some doing, (s.chains sessionId).jobs.tail⟩ else s.chains other :=
  Function.update_apply ..

theorem chains_goesOn (s : Receiver) (sessionId : JsString) (doing : Option Doing) (other : JsString) :
    (s.goesOn sessionId doing).chains other =
      if other = sessionId then ⟨doing, (s.chains sessionId).jobs⟩ else s.chains other :=
  Function.update_apply ..

theorem Receiver.Later.refl (s : Receiver) : s.Later s :=
  ⟨fun _ found hcall => ⟨found, hcall, rfl, fun h => h⟩, fun _ _ _ answer h => ⟨answer, h, fun _ => rfl⟩⟩

theorem Receiver.Later.trans (h : s.Later s') (h' : s'.Later s'') : s.Later s'' := by
  refine ⟨fun call found hcall => ?_, fun decision event sessionId answer hdecision => ?_⟩
  · obtain ⟨found', hcall', hsession, hclosed⟩ := h.calls call found hcall
    obtain ⟨found'', hcall'', hsession', hclosed'⟩ := h'.calls call found' hcall'
    exact ⟨found'', hcall'', hsession'.trans hsession, fun hc => hclosed' (hclosed hc)⟩
  · obtain ⟨answer', hdecision', hkept⟩ := h.decisions decision event sessionId answer hdecision
    obtain ⟨answer'', hdecision'', hkept'⟩ := h'.decisions decision event sessionId answer' hdecision'
    refine ⟨answer'', hdecision'', fun hsome => ?_⟩
    have hsame := hkept hsome
    rw [hkept' (hsame ▸ hsome), hsame]

theorem later_congr (hheap : s'.heap = s.heap) (hdecisions : s'.decisions = s.decisions) : s.Later s' :=
  ⟨fun _ found hcall => ⟨found, hheap ▸ hcall, rfl, fun h => h⟩, fun _ _ _ answer h => ⟨answer, hdecisions ▸ h, fun _ => rfl⟩⟩

theorem later_modify (hheap : s'.heap = s.heap.modify call change) (hdecisions : s'.decisions = s.decisions)
    (hsession : ∀ found, (change found).sessionId = found.sessionId)
    (hclosed : ∀ found, found.closed = true → (change found).closed = true) : s.Later s' := by
  refine ⟨fun other found hcall => ?_, fun _ _ _ answer h => ⟨answer, hdecisions ▸ h, fun _ => rfl⟩⟩
  rw [hheap]
  by_cases hsame : call = other
  · subst hsame
    exact ⟨_, Heap.modify_self hcall, hsession found, hclosed found⟩
  · exact ⟨found, Heap.modify_other hcall hsame, rfl, fun h => h⟩

theorem Owns.later (h : s.Owns sessionId call) (hlater : s.Later s') : s'.Owns sessionId call := by
  obtain ⟨found, hcall, hsession⟩ := h
  obtain ⟨found', hcall', hsession', -⟩ := hlater.calls call found hcall
  exact ⟨found', hcall', hsession'.trans hsession⟩

theorem Given.later {entry : JsString × Json} (h : s.Given sessionId entry) (hlater : s.Later s') : s'.Given sessionId entry := by
  rcases h with hnone | ⟨decision, event, hdecision, hid⟩
  · exact Or.inl hnone
  · obtain ⟨answer, hdecision', hkept⟩ := hlater.decisions decision event sessionId _ hdecision
    rw [hkept rfl] at hdecision'
    exact Or.inr ⟨decision, event, hdecision', hid⟩

theorem Replied.later {event response : Json} (h : s.Replied sessionId event response) (hlater : s.Later s') :
    s'.Replied sessionId event response := by
  rcases h with hnone | ⟨decision, hdecision⟩
  · exact Or.inl hnone
  · obtain ⟨answer, hdecision', hkept⟩ := hlater.decisions decision event sessionId _ hdecision
    rw [hkept rfl] at hdecision'
    exact Or.inr ⟨decision, hdecision'⟩

theorem Job.Fits.later {job : Job} (h : job.Fits s sessionId) (hlater : s.Later s') : job.Fits s' sessionId := by
  cases job with
  | attempt id event => exact trivial
  | outcome event => exact trivial
  | seals call inProgress events ending => exact ⟨Owns.later h.1 hlater, h.2⟩
  | follow call frame => exact ⟨Owns.later h.1 hlater, h.2⟩

theorem Doing.Fits.later {doing : Doing} (h : doing.Fits s sessionId) (hlater : s.Later s') : doing.Fits s' sessionId := by
  cases doing with
  | deciding id event decision =>
      obtain ⟨answer, hdecision⟩ := h
      obtain ⟨answer', hdecision', -⟩ := hlater.decisions decision event sessionId answer hdecision
      exact ⟨answer', hdecision'⟩
  | sealing call events ending => exact ⟨Owns.later h.1 hlater, h.2⟩
  | processing work =>
      refine ⟨Owns.later h.1 hlater, fun entry hentry => Given.later (h.2.1 entry hentry) hlater,
        fun id decision hawaiting => ?_⟩
      obtain ⟨event, answer, hdecision, hid⟩ := h.2.2 id decision hawaiting
      obtain ⟨answer', hdecision', -⟩ := hlater.decisions decision event sessionId answer hdecision
      exact ⟨event, answer', hdecision', hid⟩
  | retrying call => exact Owns.later h hlater
  | closing call forward =>
      obtain ⟨⟨found, hcall, hsession, hclosed⟩, hbare⟩ := h
      obtain ⟨found', hcall', hsession', hclosed'⟩ := hlater.calls call found hcall
      exact ⟨⟨found', hcall', hsession'.trans hsession, hclosed' hclosed⟩, hbare⟩
  | ending => exact trivial

theorem Fitted.update (h : Fitted s) (hlater : s.Later s')
    (hjobs : ∀ (sessionId : JsString), ∀ job ∈ (s'.chains sessionId).jobs,
      job ∈ (s.chains sessionId).jobs ∨ job.Fits s' sessionId)
    (hdoing : ∀ (sessionId : JsString) (doing : Doing), (s'.chains sessionId).doing = some doing →
      (s.chains sessionId).doing = some doing ∨ doing.Fits s' sessionId)
    (hheld : ∀ (call : Nat) (found' : HostCall) (state : JsString) (responses : Members), s'.heap[call]? = some found' →
      found'.held = some (state, responses) →
        (∃ found, s.heap[call]? = some found ∧ found.held = some (state, responses) ∧
          found.sessionId = found'.sessionId) ∨ ∀ entry ∈ responses, s'.Given found'.sessionId entry) : Fitted s' := by
  refine ⟨fun sessionId job hjob => ?_, fun sessionId doing hd => ?_, fun call found' state responses hcall hh => ?_⟩
  · rcases hjobs sessionId job hjob with hold | hnew
    · exact (h.jobs sessionId job hold).later hlater
    · exact hnew
  · rcases hdoing sessionId doing hd with hold | hnew
    · exact (h.doing sessionId doing hold).later hlater
    · exact hnew
  · rcases hheld call found' state responses hcall hh with ⟨found, hfound, hold, hsession⟩ | hnew
    · exact fun entry hentry => hsession ▸ Given.later (h.given call found state responses hfound hold entry hentry) hlater
    · exact hnew

-- Where the queues stay.
theorem Fitted.quiet (h : Fitted s) (hlater : s.Later s') (hchains : s'.chains = s.chains)
    (hheld : ∀ (call : Nat) (found' : HostCall) (state : JsString) (responses : Members), s'.heap[call]? = some found' →
      found'.held = some (state, responses) →
        (∃ found, s.heap[call]? = some found ∧ found.held = some (state, responses) ∧
          found.sessionId = found'.sessionId) ∨ ∀ entry ∈ responses, s'.Given found'.sessionId entry) : Fitted s' :=
  h.update hlater (fun _ _ hjob => Or.inl (hchains ▸ hjob)) (fun _ _ hdoing => Or.inl (hchains ▸ hdoing)) hheld

-- Where no call is given responses to hold.
theorem held_same (hheap : s'.heap = s.heap) (call : Nat) (found' : HostCall) (state : JsString) (responses : Members)
    (hcall : s'.heap[call]? = some found') (hheld : found'.held = some (state, responses)) :
    (∃ found, s.heap[call]? = some found ∧ found.held = some (state, responses) ∧ found.sessionId = found'.sessionId) ∨
      ∀ entry ∈ responses, s'.Given found'.sessionId entry :=
  Or.inl ⟨found', hheap ▸ hcall, hheld, rfl⟩

theorem held_modify (hheap : s'.heap = s.heap.modify call change)
    (hsession : ∀ found, (change found).sessionId = found.sessionId)
    (hheld : ∀ found state responses, (change found).held = some (state, responses) → found.held = some (state, responses))
    (other : Nat) (found' : HostCall) (state : JsString) (responses : Members) (hcall : s'.heap[other]? = some found')
    (hsome : found'.held = some (state, responses)) :
    (∃ found, s.heap[other]? = some found ∧ found.held = some (state, responses) ∧ found.sessionId = found'.sessionId) ∨
      ∀ entry ∈ responses, s'.Given found'.sessionId entry := by
  rw [hheap] at hcall
  obtain ⟨found, hfound, rfl⟩ := Heap.getElem?_modify_iff.mp hcall
  refine Or.inl ⟨found, hfound, ?_⟩
  split at hsome
  · rename_i hsame
    rw [if_pos hsame]
    exact ⟨hheld found state responses hsome, (hsession found).symm⟩
  · rename_i hother
    rw [if_neg hother]
    exact ⟨hsome, rfl⟩

theorem Fitted.congr (h : Fitted s) (hheap : s'.heap = s.heap) (hdecisions : s'.decisions = s.decisions)
    (hchains : s'.chains = s.chains) : Fitted s' :=
  h.quiet (later_congr hheap hdecisions) hchains (held_same hheap)

theorem Fitted.modify (h : Fitted s) (hheap : s'.heap = s.heap.modify call change) (hdecisions : s'.decisions = s.decisions)
    (hchains : s'.chains = s.chains) (hsession : ∀ found, (change found).sessionId = found.sessionId)
    (hclosed : ∀ found, found.closed = true → (change found).closed = true)
    (hheld : ∀ found state responses, (change found).held = some (state, responses) → found.held = some (state, responses)) :
    Fitted s' :=
  h.quiet (later_modify hheap hdecisions hsession hclosed) hchains (held_modify hheap hsession hheld)

theorem Fitted.inSession (h : Fitted s) {job : Job} (hfits : job.Fits s sessionId) : Fitted (s.inSession sessionId job) := by
  have hlater : s.Later (s.inSession sessionId job) := later_congr rfl rfl
  refine h.update hlater (fun other one hone => ?_) (fun other doing hdoing => Or.inl ?_) (held_same rfl)
  · rw [chains_inSession] at hone
    split at hone
    · rename_i hsame
      subst hsame
      rcases List.mem_append.mp hone with hold | hnew
      · exact Or.inl hold
      · rw [List.mem_singleton.mp hnew]
        exact Or.inr (hfits.later hlater)
    · exact Or.inl hone
  · rw [chains_inSession] at hdoing
    split at hdoing
    · rename_i hsame
      exact hsame ▸ hdoing
    · exact hdoing

theorem Fitted.goesOn (h : Fitted s) {doing : Option Doing} (hfits : ∀ one, doing = some one → one.Fits s sessionId) :
    Fitted (s.goesOn sessionId doing) := by
  have hlater : s.Later (s.goesOn sessionId doing) := later_congr rfl rfl
  refine h.update hlater (fun other job hjob => Or.inl ?_) (fun other one hone => ?_) (held_same rfl)
  · rw [chains_goesOn] at hjob
    split at hjob
    · rename_i hsame
      exact hsame ▸ hjob
    · exact hjob
  · rw [chains_goesOn] at hone
    split at hone
    · rename_i hsame
      subst hsame
      exact Or.inr ((hfits one hone).later hlater)
    · exact Or.inl hone

theorem Fitted.begins (h : Fitted s) {doing : Doing} (hfits : doing.Fits s sessionId) : Fitted (s.begins sessionId doing) := by
  have hlater : s.Later (s.begins sessionId doing) := later_congr rfl rfl
  refine h.update hlater (fun other job hjob => Or.inl ?_) (fun other one hone => ?_) (held_same rfl)
  · rw [chains_begins] at hjob
    split at hjob
    · rename_i hsame
      exact hsame ▸ List.mem_of_mem_tail hjob
    · exact hjob
  · rw [chains_begins] at hone
    split at hone
    · rename_i hsame
      subst hsame
      obtain rfl := Option.some_inj.mp hone
      exact Or.inr (hfits.later hlater)
    · exact Or.inl hone

theorem Tables.congr (h : Tables s) (hheap : s'.heap = s.heap) (hcalls : s'.calls = s.calls)
    (hsessions : s'.bySession = s.bySession) (hunclosed : s'.unclosed = s.unclosed) (hheld : s'.held = s.held) : Tables s' := by
  obtain ⟨named, apart, flight, sessions, live, unclosed, held, holds, heldDistinct, sessionsDistinct, callsDistinct⟩ := h
  rw [← hheap] at named apart flight sessions live unclosed held holds
  rw [← hcalls] at flight callsDistinct
  rw [← hsessions] at sessions live sessionsDistinct
  rw [← hunclosed] at unclosed
  rw [← hheld] at held holds heldDistinct
  exact ⟨named, apart, flight, sessions, live, unclosed, held, holds, heldDistinct, sessionsDistinct, callsDistinct⟩

-- What a change of one call makes of the calls that are found.
theorem modified (hheap : s'.heap = s.heap.modify call change) {place : Nat} {after : HostCall}
    (hafter : s'.heap[place]? = some after) :
    ∃ before, s.heap[place]? = some before ∧ after = if call = place then change before else before :=
  Heap.getElem?_modify_iff.mp (hheap ▸ hafter)

namespace Tables

-- A change of one call that leaves what the tables but `#held` go by.
theorem rehold (h : Tables s) (hheap : s'.heap = s.heap.modify call change) (hcalls : s'.calls = s.calls)
    (hsessions : s'.bySession = s.bySession) (hunclosed : s'.unclosed = s.unclosed)
    (hsession : ∀ found, (change found).sessionId = found.sessionId) (hended : ∀ found, (change found).ended = found.ended)
    (hcurrent : ∀ found, (change found).currentId = found.currentId)
    (hclosed : ∀ found, (change found).closed = false → found.closed = false)
    (hheld : ∀ (state : JsString) (place : Nat), s'.held.get state = some place →
      ∃ found responses, s'.heap[place]? = some found ∧ found.held = some (state, responses))
    (hholds : ∀ (place : Nat) (found : HostCall) (state : JsString) (responses : Members), s'.heap[place]? = some found →
      found.held = some (state, responses) → s'.held.get state = some place ∧ found.ended = false)
    (hdistinct : s'.held.keys.Nodup) : Tables s' := by
  have hback {place : Nat} {after : HostCall} (hafter : s'.heap[place]? = some after) :
      ∃ before, s.heap[place]? = some before ∧ after.sessionId = before.sessionId ∧ after.ended = before.ended ∧
        (after.closed = false → before.closed = false) := by
    obtain ⟨before, hbefore, rfl⟩ := modified hheap hafter
    refine ⟨before, hbefore, ?_⟩
    split
    · exact ⟨hsession before, hended before, hclosed before⟩
    · exact ⟨rfl, rfl, fun h => h⟩
  have hon {place : Nat} {before : HostCall} (hbefore : s.heap[place]? = some before) :
      ∃ after, s'.heap[place]? = some after ∧ after.sessionId = before.sessionId ∧ after.ended = before.ended ∧
        after.currentId = before.currentId := by
    rw [hheap]
    by_cases hsame : call = place
    · subst hsame
      exact ⟨_, Heap.modify_self hbefore, hsession before, hended before, hcurrent before⟩
    · exact ⟨before, Heap.modify_other hbefore hsame, rfl, rfl, rfl⟩
  refine ⟨fun place after hafter => ?_, fun first second after after' hafter hafter' hsame => ?_, fun id place hget => ?_,
    fun sid place hget => ?_, fun place after hafter hl => ?_, fun place after hafter hc => ?_, hheld, hholds, hdistinct,
    hsessions ▸ h.sessionsDistinct, hcalls ▸ h.callsDistinct⟩
  · obtain ⟨before, hbefore, hs, -⟩ := hback hafter
    exact hs ▸ h.named place before hbefore
  · obtain ⟨before, hbefore, hs, -⟩ := hback hafter
    obtain ⟨before', hbefore', hs', -⟩ := hback hafter'
    exact h.apart first second before before' hbefore hbefore' (by rw [← hs, ← hs', hsame])
  · obtain ⟨before, hbefore, hl, hid⟩ := h.flight id place (hcalls ▸ hget)
    obtain ⟨after, hafter, -, he, hc⟩ := hon hbefore
    exact ⟨after, hafter, he.trans hl, hc.trans hid⟩
  · obtain ⟨before, hbefore, hl, hid⟩ := h.sessions sid place (hsessions ▸ hget)
    obtain ⟨after, hafter, hs, he, -⟩ := hon hbefore
    exact ⟨after, hafter, he.trans hl, hs.trans hid⟩
  · obtain ⟨before, hbefore, hs, he, -⟩ := hback hafter
    rw [hsessions, hs]
    exact h.live place before hbefore (he ▸ hl)
  · obtain ⟨before, hbefore, hs, -, hopen⟩ := hback hafter
    rw [hunclosed, hs]
    exact h.unclosed place before hbefore (hopen hc)

-- A change of one call that leaves what the tables go by.
theorem modify (h : Tables s) (hheap : s'.heap = s.heap.modify call change)
    (hcalls : s'.calls = s.calls) (hsessions : s'.bySession = s.bySession) (hunclosed : s'.unclosed = s.unclosed)
    (hheld : s'.held = s.held) (hsession : ∀ found, (change found).sessionId = found.sessionId)
    (hended : ∀ found, (change found).ended = found.ended) (hcurrent : ∀ found, (change found).currentId = found.currentId)
    (hclosed : ∀ found, (change found).closed = false → found.closed = false)
    (hholds : ∀ found, (change found).held = found.held) : Tables s' := by
  refine h.rehold hheap hcalls hsessions hunclosed hsession hended hcurrent hclosed (fun state place hget => ?_)
    (fun place after state responses hafter hh => ?_) (hheld ▸ h.heldDistinct)
  · obtain ⟨before, responses, hbefore, hh⟩ := h.held state place (hheld ▸ hget)
    rw [hheap]
    by_cases hsame : call = place
    · subst hsame
      exact ⟨_, responses, Heap.modify_self hbefore, (hholds before).trans hh⟩
    · exact ⟨before, responses, Heap.modify_other hbefore hsame, hh⟩
  · obtain ⟨before, hbefore, rfl⟩ := modified hheap hafter
    rw [hheld]
    by_cases hsame : call = place
    · rw [if_pos hsame] at hh ⊢
      rw [hended]
      exact h.holds place before state responses hbefore ((hholds before).symm.trans hh)
    · rw [if_neg hsame] at hh ⊢
      exact h.holds place before state responses hbefore hh

theorem get_heldWithout (h : Tables s) (hcall : s.heap[call]? = some found) (state : JsString) (place : Nat) :
    (s.heldWithout call found).get state = some place ↔ s.held.get state = some place ∧ place ≠ call := by
  unfold heldWithout
  cases hheld : found.held with
  | none =>
      refine ⟨fun hget => ⟨hget, fun hsame => ?_⟩, fun hget => hget.1⟩
      obtain ⟨held, responses, hfound, hsome⟩ := h.held state place hget
      rw [hsame, hcall] at hfound
      obtain rfl := Option.some_inj.mp hfound
      rw [hheld] at hsome
      cases hsome
  | some given =>
      obtain ⟨own, responses⟩ := given
      have hown := (h.holds call found own responses hcall hheld).1
      simp only [hown, if_true, OrderedMap.get_delete]
      by_cases hsame : own = state
      · subst hsame
        rw [if_pos rfl, hown]
        simp [eq_comm]
      · rw [if_neg hsame]
        refine ⟨fun hget => ⟨hget, fun hplace => ?_⟩, fun hget => hget.1⟩
        obtain ⟨held, responses', hfound, hsome⟩ := h.held state place hget
        rw [hplace, hcall] at hfound
        obtain rfl := Option.some_inj.mp hfound
        rw [hheld] at hsome
        exact hsame (Prod.mk.inj (Option.some_inj.mp hsome)).1

theorem heldWithout_distinct (h : Tables s) (call : Nat) (found : HostCall) : (s.heldWithout call found).keys.Nodup := by
  unfold heldWithout
  cases found.held with
  | none => exact h.heldDistinct
  | some given =>
      dsimp only
      split
      · exact OrderedMap.nodup_keys_delete h.heldDistinct _
      · exact h.heldDistinct

-- `#unhold`
theorem unhold (h : Tables s) (hcall : s.heap[call]? = some found) :
    Tables { s.alter call (fun found => { found with held := none }) with held := s.heldWithout call found } := by
  refine h.rehold rfl rfl rfl rfl (fun _ => rfl) (fun _ => rfl) (fun _ => rfl) (fun _ hc => hc) (fun state place hget => ?_)
    (fun place after state responses hafter hh => ?_) (h.heldWithout_distinct call found)
  · obtain ⟨hold, hother⟩ := (h.get_heldWithout hcall state place).mp hget
    obtain ⟨before, responses, hbefore, hh⟩ := h.held state place hold
    exact ⟨before, responses, Heap.modify_other hbefore (Ne.symm hother), hh⟩
  · obtain ⟨before, hbefore, rfl⟩ := modified (s := s) rfl hafter
    by_cases hsame : call = place
    · rw [if_pos hsame] at hh
      cases hh
    · rw [if_neg hsame] at hh ⊢
      obtain ⟨hget, hl⟩ := h.holds place before state responses hbefore hh
      exact ⟨(h.get_heldWithout hcall state place).mpr ⟨hget, Ne.symm hsame⟩, hl⟩

-- Held by a call that holds nothing.
theorem hold (h : Tables s) (hcall : s.heap[call]? = some found) (hnone : found.held = none) (hlive : found.ended = false)
    {state : JsString} (hfree : s.held.get state = none) (responses : Members) :
    Tables { s.alter call (fun found => { found with held := some (state, responses) }) with held := s.held.set state call } := by
  refine h.rehold rfl rfl rfl rfl (fun _ => rfl) (fun _ => rfl) (fun _ => rfl) (fun _ hc => hc) (fun own place hget => ?_)
    (fun place after own given hafter hh => ?_) (OrderedMap.nodup_keys_set h.heldDistinct _ _)
  · rw [OrderedMap.get_set] at hget
    by_cases hown : state = own
    · rw [if_pos hown] at hget
      obtain rfl := Option.some_inj.mp hget
      exact ⟨_, responses, Heap.modify_self hcall, by rw [hown]⟩
    · rw [if_neg hown] at hget
      obtain ⟨before, given, hbefore, hh⟩ := h.held own place hget
      refine ⟨before, given, Heap.modify_other hbefore fun hsame => ?_, hh⟩
      rw [← hsame, hcall] at hbefore
      obtain rfl := Option.some_inj.mp hbefore
      rw [hnone] at hh
      cases hh
  · obtain ⟨before, hbefore, rfl⟩ := modified (s := s) rfl hafter
    by_cases hsame : call = place
    · rw [if_pos hsame] at hh ⊢
      rw [← hsame, hcall] at hbefore
      obtain rfl := Option.some_inj.mp hbefore
      obtain ⟨rfl, -⟩ := Prod.mk.inj (Option.some_inj.mp hh)
      exact ⟨hsame ▸ OrderedMap.get_set_self _ _ _, hlive⟩
    · rw [if_neg hsame] at hh ⊢
      obtain ⟨hget, hl⟩ := h.holds place before own given hbefore hh
      refine ⟨(OrderedMap.get_set_of_ne _ _ fun hown => ?_).trans hget, hl⟩
      rw [← hown, hfree] at hget
      cases hget

-- A call that holds nothing leaves flight.
theorem leave (h : Tables s) (hcall : s.heap[call]? = some found) (hnone : found.held = none) (hlive : found.ended = false) :
    Tables { s.alter call (fun found => { found with ended := true }) with
      calls := if s.calls.get found.currentId = some call then s.calls.delete found.currentId else s.calls
      bySession := s.bySession.delete found.sessionId } := by
  have hback {place : Nat} {after : HostCall} (hafter : (s.heap.modify call fun found => { found with ended := true })[place]? =
      some after) : ∃ before, s.heap[place]? = some before ∧ after.sessionId = before.sessionId ∧
        after.held = before.held ∧ after.closed = before.closed ∧ (call ≠ place → after.ended = before.ended) ∧
        (call = place → after.ended = true) := by
    obtain ⟨before, hbefore, rfl⟩ := Heap.getElem?_modify_iff.mp hafter
    refine ⟨before, hbefore, ?_⟩
    split <;> simp_all
  have hstays {place : Nat} {before : HostCall} (hbefore : s.heap[place]? = some before) (hother : place ≠ call) :
      (s.heap.modify call fun found => { found with ended := true })[place]? = some before :=
    Heap.modify_other hbefore (Ne.symm hother)
  refine ⟨fun place after hafter => ?_, fun first second after after' hafter hafter' hsame => ?_, fun id place hget => ?_,
    fun sid place hget => ?_, fun place after hafter hl => ?_, fun place after hafter hc => ?_, fun state place hget => ?_,
    fun place after state responses hafter hh => ?_, h.heldDistinct, OrderedMap.nodup_keys_delete h.sessionsDistinct _, ?_⟩
  · obtain ⟨before, hbefore, hs, -⟩ := hback hafter
    exact hs ▸ h.named place before hbefore
  · obtain ⟨before, hbefore, hs, -⟩ := hback hafter
    obtain ⟨before', hbefore', hs', -⟩ := hback hafter'
    exact h.apart first second before before' hbefore hbefore' (by rw [← hs, ← hs', hsame])
  · -- A call in flight goes by the id it is found under, so another call is not the one that left.
    have hkept : s.calls.get id = some place ∧ place ≠ call := by
      by_cases hown : s.calls.get found.currentId = some call
      · simp only [hown, if_true, OrderedMap.get_delete] at hget
        split at hget
        · cases hget
        · rename_i hid
          refine ⟨hget, fun hsame => ?_⟩
          obtain ⟨before, hbefore, -, hc⟩ := h.flight id place hget
          rw [hsame, hcall] at hbefore
          obtain rfl := Option.some_inj.mp hbefore
          exact hid hc
      · simp only [hown, if_false] at hget
        refine ⟨hget, fun hsame => ?_⟩
        obtain ⟨before, hbefore, -, hc⟩ := h.flight id place hget
        rw [hsame, hcall] at hbefore
        obtain rfl := Option.some_inj.mp hbefore
        exact hown (by rw [hc, hget, hsame])
    obtain ⟨before, hbefore, hl, hid⟩ := h.flight id place hkept.1
    exact ⟨before, hstays hbefore hkept.2, hl, hid⟩
  · rw [OrderedMap.get_delete] at hget
    split at hget
    · cases hget
    · rename_i hother
      obtain ⟨before, hbefore, hl, hs⟩ := h.sessions sid place hget
      refine ⟨before, hstays hbefore fun hsame => ?_, hl, hs⟩
      rw [hsame, hcall] at hbefore
      obtain rfl := Option.some_inj.mp hbefore
      exact hother hs
  · obtain ⟨before, hbefore, hs, -, -, he, hgone⟩ := hback hafter
    by_cases hsame : call = place
    · rw [hgone hsame] at hl
      cases hl
    · rw [OrderedMap.get_delete, if_neg, hs]
      · exact h.live place before hbefore (he hsame ▸ hl)
      · intro heq
        exact hsame (h.apart call place found before hcall hbefore (heq.trans hs))
  · obtain ⟨before, hbefore, hs, -, hopen, -⟩ := hback hafter
    exact hs ▸ h.unclosed place before hbefore (hopen ▸ hc)
  · obtain ⟨before, responses, hbefore, hh⟩ := h.held state place hget
    refine ⟨before, responses, hstays hbefore fun hsame => ?_, hh⟩
    rw [hsame, hcall] at hbefore
    obtain rfl := Option.some_inj.mp hbefore
    rw [hnone] at hh
    cases hh
  · obtain ⟨before, hbefore, -, hsame, -, he, -⟩ := hback hafter
    obtain ⟨hget, hl⟩ := h.holds place before state responses hbefore (hsame ▸ hh)
    refine ⟨hget, (he fun hgone => ?_).trans hl⟩
    rw [← hgone, hcall] at hbefore
    obtain rfl := Option.some_inj.mp hbefore
    rw [hsame, hnone] at hh
    cases hh
  · dsimp only
    split
    · exact OrderedMap.nodup_keys_delete h.callsDistinct _
    · exact h.callsDistinct

-- The tool answers a call in flight under another id.
theorem rename (h : Tables s) (hcall : s.heap[call]? = some found) (hlive : found.ended = false) {id : RequestId}
    (hheap : s'.heap = s.heap.modify call change) (hcalls : s'.calls = (s.calls.delete found.currentId).set id call)
    (hsessions : s'.bySession = s.bySession) (hunclosed : s'.unclosed = s.unclosed) (hheld : s'.held = s.held)
    (hsession : ∀ found, (change found).sessionId = found.sessionId) (hended : ∀ found, (change found).ended = found.ended)
    (hclosed : ∀ found, (change found).closed = found.closed) (hholds : ∀ found, (change found).held = found.held)
    (hcurrent : ∀ found, (change found).currentId = id) : Tables s' := by
  have hback {place : Nat} {after : HostCall} (hafter : s'.heap[place]? = some after) :
      ∃ before, s.heap[place]? = some before ∧ after.sessionId = before.sessionId ∧ after.ended = before.ended ∧
        after.closed = before.closed ∧ after.held = before.held := by
    obtain ⟨before, hbefore, rfl⟩ := modified hheap hafter
    refine ⟨before, hbefore, ?_⟩
    split
    · exact ⟨hsession before, hended before, hclosed before, hholds before⟩
    · exact ⟨rfl, rfl, rfl, rfl⟩
  have hon {place : Nat} {before : HostCall} (hbefore : s.heap[place]? = some before) :
      ∃ after, s'.heap[place]? = some after ∧ after.sessionId = before.sessionId ∧ after.ended = before.ended ∧
        after.held = before.held ∧ (call ≠ place → after.currentId = before.currentId) ∧
        (call = place → after.currentId = id) := by
    rw [hheap]
    by_cases hsame : call = place
    · subst hsame
      exact ⟨_, Heap.modify_self hbefore, hsession before, hended before, hholds before, fun hne => absurd rfl hne,
        fun _ => hcurrent before⟩
    · exact ⟨before, Heap.modify_other hbefore hsame, rfl, rfl, rfl, fun _ => rfl, fun heq => absurd heq hsame⟩
  refine ⟨fun place after hafter => ?_, fun first second after after' hafter hafter' hsame => ?_, fun key place hget => ?_,
    fun sid place hget => ?_, fun place after hafter hl => ?_, fun place after hafter hc => ?_, fun state place hget => ?_,
    fun place after state responses hafter hh => ?_, hheld ▸ h.heldDistinct, hsessions ▸ h.sessionsDistinct,
    hcalls ▸ OrderedMap.nodup_keys_set (OrderedMap.nodup_keys_delete h.callsDistinct _) _ _⟩
  · obtain ⟨before, hbefore, hs, -⟩ := hback hafter
    exact hs ▸ h.named place before hbefore
  · obtain ⟨before, hbefore, hs, -⟩ := hback hafter
    obtain ⟨before', hbefore', hs', -⟩ := hback hafter'
    exact h.apart first second before before' hbefore hbefore' (by rw [← hs, ← hs', hsame])
  · rw [hcalls, OrderedMap.get_set] at hget
    by_cases hkey : id = key
    · rw [if_pos hkey] at hget
      obtain rfl := Option.some_inj.mp hget
      obtain ⟨after, hafter, -, he, -, -, hc⟩ := hon hcall
      exact ⟨after, hafter, he.trans hlive, (hc rfl).trans hkey⟩
    · rw [if_neg hkey, OrderedMap.get_delete] at hget
      split at hget
      · cases hget
      · rename_i hdeleted
        obtain ⟨before, hbefore, hl, hid⟩ := h.flight key place hget
        have hother : call ≠ place := by
          rintro rfl
          rw [hcall] at hbefore
          obtain rfl := Option.some_inj.mp hbefore
          exact hdeleted hid
        obtain ⟨after, hafter, -, he, -, hc, -⟩ := hon hbefore
        exact ⟨after, hafter, he.trans hl, (hc hother).trans hid⟩
  · obtain ⟨before, hbefore, hl, hid⟩ := h.sessions sid place (hsessions ▸ hget)
    obtain ⟨after, hafter, hs, he, -⟩ := hon hbefore
    exact ⟨after, hafter, he.trans hl, hs.trans hid⟩
  · obtain ⟨before, hbefore, hs, he, -⟩ := hback hafter
    rw [hsessions, hs]
    exact h.live place before hbefore (he ▸ hl)
  · obtain ⟨before, hbefore, hs, -, hopen, -⟩ := hback hafter
    rw [hunclosed, hs]
    exact h.unclosed place before hbefore (hopen ▸ hc)
  · obtain ⟨before, responses, hbefore, hh⟩ := h.held state place (hheld ▸ hget)
    obtain ⟨after, hafter, -, -, hsame, -⟩ := hon hbefore
    exact ⟨after, responses, hafter, hsame.trans hh⟩
  · obtain ⟨before, hbefore, -, he, -, hsame⟩ := hback hafter
    rw [hheld, he]
    exact h.holds place before state responses hbefore (hsame ▸ hh)

theorem detach (h : Tables s) (hcall : s.heap[call]? = some found) (hlive : found.ended = false) : Tables (s.detach call) := by
  have hunheld := h.unhold hcall
  have hcall' : (s.heap.modify call fun found => { found with held := none })[call]? = some { found with held := none } :=
    Heap.modify_self hcall
  refine (hunheld.leave hcall' rfl hlive).congr ?_ ?_ ?_ ?_ ?_
  · simp only [Receiver.detach, hcall, hlive, Bool.false_eq_true, if_false, Receiver.alter, List.modify_modify_eq]
    rfl
  · simp only [Receiver.detach, hcall, hlive, Bool.false_eq_true, if_false]
    rfl
  · simp only [Receiver.detach, hcall, hlive, Bool.false_eq_true, if_false, h.live call found hcall hlive, if_true]
    rfl
  · simp only [Receiver.detach, hcall, hlive, Bool.false_eq_true, if_false]
    rfl
  · simp only [Receiver.detach, hcall, hlive, Bool.false_eq_true, if_false]
    rfl

theorem resume (h : Tables s) (hcall : s.heap[call]? = some found) (hlive : found.ended = false) (responses : Members)
    (frame : JsonRpcFrame) (id : RequestId) (params : Members) (signal : Bool) :
    Tables (s.resume call found responses frame id params signal) := by
  have hcall' : (s.heap.modify call fun found => { found with held := none })[call]? = some { found with held := none } :=
    Heap.modify_self hcall
  have hheap : (s.resume call found responses frame id params signal).heap =
      (s.heap.modify call fun found => { found with held := none }).modify call
        fun found => { found with clientId := id, currentId := id, watched := signal } := by
    simp only [Receiver.resume, Receiver.alter, List.modify_modify_eq]
    rfl
  exact (h.unhold hcall).rename hcall' hlive hheap rfl rfl rfl rfl (fun _ => rfl) (fun _ => rfl) (fun _ => rfl) (fun _ => rfl)
    (fun _ => rfl)

theorem holdRound (h : Tables s) (hcall : s.heap[call]? = some found) (hlive : found.ended = false) {state : JsString}
    (hfree : ∀ other, s.held.get state = some other → other = call) (responses : Members) :
    Tables (s.holdRound call found state responses) := by
  have hcall' : (s.heap.modify call fun found => { found with held := none })[call]? = some { found with held := none } :=
    Heap.modify_self hcall
  have hnone : (s.heldWithout call found).get state = none := by
    cases hget : (s.heldWithout call found).get state with
    | none => rfl
    | some other =>
        obtain ⟨hheld, hother⟩ := (h.get_heldWithout hcall state other).mp hget
        exact absurd (hfree other hheld) hother
  refine ((h.unhold hcall).hold hcall' rfl hlive hnone responses).congr ?_ rfl rfl rfl rfl
  simp only [Receiver.holdRound, Receiver.alter, List.modify_modify_eq]
  rfl

theorem retry (h : Tables s) (hcall : s.heap[call]? = some found) (hlive : found.ended = false) (sessionId state : JsString)
    (responses : Members) : Tables (s.retry sessionId call found state responses) :=
  h.rename hcall hlive rfl rfl rfl rfl rfl (fun _ => rfl) (fun _ => rfl) (fun _ => rfl) (fun _ => rfl) (fun _ => rfl)

theorem forget (h : Tables s) (hcall : s.heap[call]? = some found) (hclosed : found.closed = true) : Tables (s.forget call) := by
  simp only [Receiver.forget, hcall]
  refine { h with unclosed := fun place other hplace hopen => ?_ }
  rw [OrderedMap.get_delete, if_neg]
  · exact h.unclosed place other hplace hopen
  · intro hsame
    obtain rfl := h.apart call place found other hcall hplace hsame
    rw [hcall] at hplace
    rw [← Option.some_inj.mp hplace, hclosed] at hopen
    cases hopen

theorem openCall (h : Tables s) (frame : JsonRpcFrame) (id : RequestId) (params : Members) (signal : Bool)
    (hfresh : s.fresh sessionId = true) : Tables (s.openCall frame id params sessionId signal) := by
  simp only [Receiver.fresh, Bool.and_eq_true, decide_eq_true_eq, List.all_eq_true] at hfresh
  obtain ⟨hnamed, hnew⟩ := hfresh
  have hfound {place : Nat} {one : HostCall} (hone : s.heap[place]? = some one) :
      one.sessionId ≠ sessionId ∧ place ≠ s.heap.length :=
    ⟨hnew one (List.mem_of_getElem? hone), Nat.ne_of_lt (Heap.lt_of_getElem? hone)⟩
  have hkept {place : Nat} {one : HostCall} (hone : s.heap[place]? = some one) :
      (s.openCall frame id params sessionId signal).heap[place]? = some one :=
    Heap.getElem?_append_iff.mpr (Or.inl hone)
  have hadded : (s.openCall frame id params sessionId signal).heap[s.heap.length]? = some
      { params := Receiver.withAudit params (.obj [(Fields.SESSION_ID, .str sessionId)]), sessionId, clientId := id, currentId := id
        rounds := 0, held := none, watched := signal, ended := false, closed := false } :=
    Heap.getElem?_append_iff.mpr (Or.inr ⟨rfl, rfl⟩)
  have hback {place : Nat} {one : HostCall} (hone : (s.openCall frame id params sessionId signal).heap[place]? = some one) :
      s.heap[place]? = some one ∨ place = s.heap.length ∧ one.sessionId = sessionId ∧ one.held = none := by
    rcases Heap.getElem?_append_iff.mp hone with hold | ⟨hplace, rfl⟩
    · exact Or.inl hold
    · exact Or.inr ⟨hplace, rfl, rfl⟩
  refine ⟨fun place one hone => ?_, fun first second one other hone hother hsame => ?_, fun key place hget => ?_,
    fun sid place hget => ?_, fun place one hone hl => ?_, fun place one hone hc => ?_, fun state place hget => ?_,
    fun place one state responses hone hh => ?_, h.heldDistinct, OrderedMap.nodup_keys_set h.sessionsDistinct _ _,
    OrderedMap.nodup_keys_set h.callsDistinct _ _⟩
  · rcases hback hone with hold | ⟨-, hs, -⟩
    · exact h.named place one hold
    · exact hs ▸ hnamed
  · rcases hback hone with hold | ⟨hplace, hs, -⟩ <;> rcases hback hother with hold' | ⟨hplace', hs', -⟩
    · exact h.apart first second one other hold hold' hsame
    · exact absurd (hsame.trans hs') (hfound hold).1
    · exact absurd (hsame.symm.trans hs) (hfound hold').1
    · exact hplace.trans hplace'.symm
  · change (s.calls.set id s.heap.length).get key = some place at hget
    rw [OrderedMap.get_set] at hget
    by_cases hkey : id = key
    · rw [if_pos hkey] at hget
      obtain rfl := Option.some_inj.mp hget
      exact ⟨_, hadded, rfl, hkey⟩
    · rw [if_neg hkey] at hget
      obtain ⟨one, hone, hl, hid⟩ := h.flight key place hget
      exact ⟨one, hkept hone, hl, hid⟩
  · change (s.bySession.set sessionId s.heap.length).get sid = some place at hget
    rw [OrderedMap.get_set] at hget
    by_cases hsid : sessionId = sid
    · rw [if_pos hsid] at hget
      obtain rfl := Option.some_inj.mp hget
      exact ⟨_, hadded, rfl, hsid⟩
    · rw [if_neg hsid] at hget
      obtain ⟨one, hone, hl, hid⟩ := h.sessions sid place hget
      exact ⟨one, hkept hone, hl, hid⟩
  · change (s.bySession.set sessionId s.heap.length).get one.sessionId = some place
    rcases hback hone with hold | ⟨rfl, rfl, -⟩
    · exact (OrderedMap.get_set_of_ne _ _ (Ne.symm (hfound hold).1)).trans (h.live place one hold hl)
    · exact OrderedMap.get_set_self _ _ _
  · change (s.unclosed.set sessionId s.heap.length).get one.sessionId = some place
    rcases hback hone with hold | ⟨rfl, rfl, -⟩
    · exact (OrderedMap.get_set_of_ne _ _ (Ne.symm (hfound hold).1)).trans (h.unclosed place one hold hc)
    · exact OrderedMap.get_set_self _ _ _
  · obtain ⟨one, responses, hone, hh⟩ := h.held state place hget
    exact ⟨one, responses, hkept hone, hh⟩
  · rcases hback hone with hold | ⟨-, -, hnone⟩
    · exact h.holds place one state responses hold hh
    · rw [hnone] at hh
      cases hh

end Tables

end

end AuditableMcp.Mcp.HostSeam
