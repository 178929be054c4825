import AuditableMcp.Mcp.HostTables

-- Every move keeps the tables and the queues, and every step of the seam is a sequence of moves.
namespace AuditableMcp.Mcp.HostSeam

open Receiver

section

variable {s s' : Receiver} {call : Nat} {found : HostCall} {sessionId : JsString} {calm : Prop}

theorem detach_eq (hcall : s.heap[call]? = some found) (hlive : found.ended = false) :
    s.detach call =
      { s with
        heap := s.heap.modify call fun found => { found with ended := true, held := none }
        held := s.heldWithout call found
        calls := if s.calls.get found.currentId = some call then s.calls.delete found.currentId else s.calls
        bySession :=
          if s.bySession.get found.sessionId = some call then s.bySession.delete found.sessionId else s.bySession } := by
  simp only [Receiver.detach, hcall, hlive, Bool.false_eq_true, if_false]

theorem detach_heap (hcall : s.heap[call]? = some found) (hlive : found.ended = false) :
    (s.detach call).heap = s.heap.modify call fun found => { found with ended := true, held := none } :=
  congrArg Receiver.heap (detach_eq hcall hlive)

-- A call that ends and is closed at once.
theorem detach_heap_closed (hcall : s.heap[call]? = some found) (hlive : found.ended = false) :
    ((s.detach call).heap.modify call fun found => { found with closed := true }) =
      s.heap.modify call fun found => { found with ended := true, held := none, closed := true } := by
  rw [detach_heap hcall hlive, List.modify_modify_eq]
  rfl

theorem detach_ended (hcall : s.heap[call]? = some found) (hended : found.ended = true) : s.detach call = s := by
  simp only [Receiver.detach, hcall, hended, if_true]

theorem detach_call (hcall : s.heap[call]? = some found) (hlive : found.ended = false) :
    (s.detach call).heap[call]? = some { found with ended := true, held := none } := by
  rw [detach_eq hcall hlive]
  exact Heap.modify_self hcall

theorem detach_chains (s : Receiver) (call : Nat) : (s.detach call).chains = s.chains := by
  unfold Receiver.detach
  repeat' split
  all_goals rfl

theorem detach_decisions (s : Receiver) (call : Nat) : (s.detach call).decisions = s.decisions := by
  unfold Receiver.detach
  repeat' split
  all_goals rfl

theorem Fitted.detach (h : Fitted s) (hcall : s.heap[call]? = some found) (hlive : found.ended = false) :
    Fitted (s.detach call) :=
  h.modify (detach_heap hcall hlive) (detach_decisions s call) (detach_chains s call) (fun _ => rfl)
    (fun _ hclosed => hclosed) (fun _ _ _ hheld => by cases hheld)

theorem Standing.detach (h : Standing s) (hcall : s.heap[call]? = some found) (hlive : found.ended = false) :
    Standing (s.detach call) :=
  ⟨h.tables.detach hcall hlive, h.fitted.detach hcall hlive⟩

theorem Standing.congr (h : Standing s) (hheap : s'.heap = s.heap) (hcalls : s'.calls = s.calls)
    (hsessions : s'.bySession = s.bySession) (hunclosed : s'.unclosed = s.unclosed) (hheld : s'.held = s.held)
    (hdecisions : s'.decisions = s.decisions) (hchains : s'.chains = s.chains) : Standing s' :=
  ⟨h.tables.congr hheap hcalls hsessions hunclosed hheld, h.fitted.congr hheap hdecisions hchains⟩

theorem Standing.inSession (h : Standing s) {job : Job} (hfits : job.Fits s sessionId) :
    Standing (s.inSession sessionId job) :=
  ⟨h.tables.congr rfl rfl rfl rfl rfl, h.fitted.inSession hfits⟩

theorem Standing.goesOn (h : Standing s) {doing : Option Doing} (hfits : ∀ one, doing = some one → one.Fits s sessionId) :
    Standing (s.goesOn sessionId doing) :=
  ⟨h.tables.congr rfl rfl rfl rfl rfl, h.fitted.goesOn hfits⟩

-- A call's session is closed, from within its queue.
theorem Standing.closing (h : Standing s) (hcall : s.heap[call]? = some found) {forward : Option JsonRpcFrame}
    (hbare : ∀ frame, forward = some frame → Bare frame) :
    Standing (((s.alter call fun found => { found with closed := true }).ask (.closeSession found.sessionId)).goesOn
      found.sessionId (some (.closing call forward))) := by
  have hmarked : Standing ((s.alter call fun found => { found with closed := true }).ask (.closeSession found.sessionId)) :=
    ⟨h.tables.modify rfl rfl rfl rfl rfl (fun _ => rfl) (fun _ => rfl) (fun _ => rfl) (fun _ hopen => by cases hopen)
        (fun _ => rfl),
      h.fitted.modify rfl rfl rfl (fun _ => rfl) (fun _ _ => rfl) (fun _ _ _ hheld => hheld)⟩
  refine hmarked.goesOn fun one hone => ?_
  obtain rfl := Option.some_inj.mp hone
  exact ⟨⟨_, Heap.modify_self hcall, rfl, rfl⟩, hbare⟩

-- A change of one call that neither the tables nor the queues go by.
theorem Standing.alter (h : Standing s) (call : Nat) {change : HostCall → HostCall}
    (hsession : ∀ found, (change found).sessionId = found.sessionId) (hended : ∀ found, (change found).ended = found.ended)
    (hcurrent : ∀ found, (change found).currentId = found.currentId) (hclosed : ∀ found, (change found).closed = found.closed)
    (hheld : ∀ found, (change found).held = found.held) : Standing (s.alter call change) :=
  ⟨h.tables.modify rfl rfl rfl rfl rfl hsession hended hcurrent (fun found hopen => (hclosed found).symm.trans hopen) hheld,
    h.fitted.modify rfl rfl rfl hsession (fun found hold => (hclosed found).trans hold)
      (fun found _ _ hsome => (hheld found).symm.trans hsome)⟩

theorem Standing.retry (h : Standing s) (hcall : s.heap[call]? = some found) (hlive : found.ended = false)
    (state : JsString) (responses : Members) : Standing (s.retry found.sessionId call found state responses) := by
  have hrenamed (s' : Receiver) (hheap : s'.heap = s.heap.modify call fun found => { found with currentId := .str s.newId })
      (hdecisions : s'.decisions = s.decisions) (hchains : s'.chains = s.chains) : Fitted s' :=
    h.fitted.modify hheap hdecisions hchains (fun _ => rfl) (fun _ hclosed => hclosed) (fun _ _ _ hheld => hheld)
  refine ⟨h.tables.retry hcall hlive found.sessionId state responses, ?_⟩
  unfold Receiver.retry
  apply Fitted.goesOn
  · exact hrenamed _ rfl rfl rfl
  · intro one hone
    obtain rfl := Option.some_inj.mp hone
    exact ⟨_, Heap.modify_self hcall, rfl⟩

-- A call's responses are followed once more.
theorem Standing.beginRound (h : Standing s) (hcall : s.heap[call]? = some found) (frame : JsonRpcFrame) (decide : Bool) :
    Standing (s.beginRound found.sessionId call frame decide) := by
  have hcounted : Standing (s.alter call fun found => { found with rounds := found.rounds + 1 }) :=
    h.alter call (fun _ => rfl) (fun _ => rfl) (fun _ => rfl) (fun _ => rfl) (fun _ => rfl)
  refine hcounted.goesOn fun one hone => ?_
  obtain rfl := Option.some_inj.mp hone
  refine ⟨⟨_, Heap.modify_self hcall, rfl⟩, fun entry hentry => ?_, fun id decision hawaiting => ?_⟩
  · cases hentry
  · cases hawaiting

theorem later_detach (hcall : s.heap[call]? = some found) (hlive : found.ended = false) : s.Later (s.detach call) :=
  later_modify (detach_heap hcall hlive) (detach_decisions s call) (fun _ => rfl)
    (fun _ hclosed => hclosed)

theorem later_openCall (s : Receiver) (frame : JsonRpcFrame) (id : RequestId) (params : Members) (sessionId : JsString)
    (signal : Bool) : s.Later (s.openCall frame id params sessionId signal) :=
  ⟨fun _ found hcall => ⟨found, Heap.getElem?_append_iff.mpr (Or.inl hcall), rfl, fun h => h⟩,
    fun _ _ _ answer h => ⟨answer, h, fun _ => rfl⟩⟩

theorem later_takeDecision (s : Receiver) (event : Json) (sessionId : JsString) : s.Later (s.takeDecision event sessionId) :=
  ⟨fun _ found hcall => ⟨found, hcall, rfl, fun h => h⟩,
    fun _ _ _ answer h => ⟨answer, Heap.getElem?_append_iff.mpr (Or.inl h), fun _ => rfl⟩⟩

theorem later_answers {decision : Nat} {event : Json} (answer : Json)
    (hdecision : s.decisions[decision]? = some ⟨event, sessionId, none⟩) :
    s.Later { s with decisions := s.decisions.set decision ⟨event, sessionId, some answer⟩ } := by
  refine ⟨fun _ found hcall => ⟨found, hcall, rfl, fun h => h⟩, fun place other sid given hplace => ?_⟩
  by_cases hsame : decision = place
  · subst hsame
    rw [hdecision] at hplace
    obtain ⟨rfl, rfl, rfl⟩ := Decision.mk.inj (Option.some_inj.mp hplace)
    refine ⟨some answer, ?_, fun hsome => by cases hsome⟩
    rw [List.getElem?_set_self (Heap.lt_of_getElem? hdecision)]
  · refine ⟨given, ?_, fun _ => rfl⟩
    rw [List.getElem?_set_ne hsame]
    exact hplace

theorem HostMove.standing (h : Standing s) (hmove : HostMove calm s s') : Standing s' := by
  cases hmove with
  | aside haside =>
      exact h.congr haside.heap haside.calls haside.bySession haside.unclosed haside.held haside.decisions haside.chains
  | replies id hreplied => exact h.congr rfl rfl rfl rfl rfl rfl rfl
  | opens frame id params signal hfresh =>
      refine ⟨h.tables.openCall frame id params signal hfresh,
        h.fitted.quiet (later_openCall s frame id params _ signal) rfl fun place one state responses hone hheld => ?_⟩
      rcases Heap.getElem?_append_iff.mp hone with hold | ⟨-, rfl⟩
      · exact Or.inl ⟨one, hold, hheld, rfl⟩
      · cases hheld
  | resumes frame id params signal hcall hheld =>
      exact ⟨h.tables.resume hcall (h.tables.holds _ _ _ _ hcall hheld).2 _ frame id params signal,
        h.fitted.modify rfl rfl rfl (fun _ => rfl) (fun _ hclosed => hclosed) (fun _ _ _ hheld => by cases hheld)⟩
  | ends inProgress events hcall hlive =>
      exact (h.detach hcall hlive).inSession ⟨⟨_, detach_call hcall hlive, rfl⟩, rfl⟩
  | queues hopen hfits hlive => exact h.inSession hfits
  | begins hchain hcloses hfits hround => exact ⟨h.tables.congr rfl rfl rfl rfl rfl, h.fitted.begins hfits⟩
  | goes hdoing hcloses hfits hopen hround =>
      refine h.goesOn fun one hone => ?_
      obtain rfl := Option.some_inj.mp hone
      exact hfits
  | stops hdoing hclosed => exact h.goesOn fun _ hone => by cases hone
  | seals event hdoing hopen => exact h.congr rfl rfl rfl rfl rfl rfl rfl
  | decides event hdoing hopen =>
      exact ⟨h.tables.congr rfl rfl rfl rfl rfl, h.fitted.quiet (later_takeDecision s event _) rfl (held_same rfl)⟩
  | closes hdoing hcloses hcall hopen => exact h.closing hcall fun _ hnone => by cases hnone
  | closesAhead forward hdoing hcloses hcall hlive hopen hbare hbehind =>
      refine (h.detach hcall hlive).closing (detach_call hcall hlive) fun frame hframe => ?_
      exact Option.some_inj.mp hframe ▸ hbare
  | detaches hcall hlive hclosed => exact h.detach hcall hlive
  | rounds frame decide hcall hdoing hdecide => exact h.beginRound hcall frame decide
  | @holds call found state responses hcall hlive hfree hgiven =>
      have hlater : s.Later (s.holdRound call found state responses) :=
        later_modify rfl rfl (fun _ => rfl) (fun _ hclosed => hclosed)
      refine ⟨h.tables.holdRound hcall hlive hfree _, h.fitted.quiet hlater rfl fun place one own given hone hheld => ?_⟩
      obtain ⟨before, hbefore, rfl⟩ := modified (s := s) rfl hone
      by_cases hsame : call = place
      · rw [if_pos hsame] at hheld ⊢
        obtain ⟨-, rfl⟩ := Prod.mk.inj (Option.some_inj.mp hheld)
        rw [← hsame, hcall] at hbefore
        obtain rfl := Option.some_inj.mp hbefore
        exact Or.inr fun entry hentry => Given.later (hgiven entry hentry) hlater
      · rw [if_neg hsame] at hheld ⊢
        exact Or.inl ⟨before, hbefore, hheld, rfl⟩
  | retries state hcall hlive hdoing hwork hdecide hgiven => exact h.retry hcall hlive state _
  | forgets hcall hclosed =>
      refine ⟨h.tables.forget hcall hclosed, ?_⟩
      simp only [Receiver.forget, hcall]
      exact h.fitted.congr rfl rfl rfl
  | closesOutside call hstorm =>
      unfold Receiver.closeOutside
      cases hcall : s.heap[call]? with
      | none => exact h
      | some found =>
          dsimp only
          split
          · exact h
          · exact ⟨h.tables.modify rfl rfl rfl rfl rfl (fun _ => rfl) (fun _ => rfl) (fun _ => rfl)
                (fun _ hopen => by cases hopen) (fun _ => rfl),
              h.fitted.modify rfl rfl rfl (fun _ => rfl) (fun _ _ => rfl) (fun _ _ _ hheld => hheld)⟩
  | answers answer hdecision =>
      exact ⟨h.tables.congr rfl rfl rfl rfl rfl, h.fitted.quiet (later_answers answer hdecision) rfl (held_same rfl)⟩
  | loses hstorm =>
      exact ⟨{ h.tables with flight := fun _ _ hget => (by cases hget), callsDistinct := List.nodup_nil },
        h.fitted.congr rfl rfl rfl⟩

theorem later_closing (s : Receiver) (call : Nat) (sessionId : JsString) (forward : Option JsonRpcFrame) :
    s.Later (((s.alter call fun found => { found with closed := true }).ask (.closeSession sessionId)).goesOn sessionId
      (some (.closing call forward))) :=
  later_modify rfl rfl (fun _ => rfl) (fun _ _ => rfl)

theorem later_forget (s : Receiver) (call : Nat) : s.Later (s.forget call) := by
  unfold Receiver.forget
  split
  · exact Later.refl s
  · exact later_congr rfl rfl

theorem later_closeOutside (s : Receiver) (call : Nat) : s.Later (s.closeOutside call) := by
  unfold Receiver.closeOutside
  split
  · exact Later.refl s
  · split
    · exact Later.refl s
    · exact later_modify rfl rfl (fun _ => rfl) (fun _ _ => rfl)

-- No move takes a call, its end or a decision back.
theorem HostMove.later (hmove : HostMove calm s s') : s.Later s' := by
  cases hmove with
  | aside haside => exact later_congr haside.heap haside.decisions
  | replies id hreplied => exact later_congr rfl rfl
  | opens frame id params signal hfresh => exact later_openCall s frame id params _ signal
  | resumes frame id params signal hcall hheld => exact later_modify rfl rfl (fun _ => rfl) (fun _ hclosed => hclosed)
  | ends inProgress events hcall hlive => exact (later_detach hcall hlive).trans (later_congr rfl rfl)
  | queues hopen hfits hlive => exact later_congr rfl rfl
  | begins hchain hcloses hfits hround => exact later_congr rfl rfl
  | goes hdoing hcloses hfits hopen hround => exact later_congr rfl rfl
  | stops hdoing hclosed => exact later_congr rfl rfl
  | seals event hdoing hopen => exact later_congr rfl rfl
  | decides event hdoing hopen => exact later_takeDecision s event _
  | closes hdoing hcloses hcall hopen => exact later_closing s _ _ none
  | closesAhead forward hdoing hcloses hcall hlive hopen hbare hbehind =>
      exact (later_detach hcall hlive).trans (later_closing _ _ _ (some forward))
  | detaches hcall hlive hclosed => exact later_detach hcall hlive
  | rounds frame decide hcall hdoing hdecide => exact later_modify rfl rfl (fun _ => rfl) (fun _ hclosed => hclosed)
  | holds hcall hlive hfree hgiven => exact later_modify rfl rfl (fun _ => rfl) (fun _ hclosed => hclosed)
  | retries state hcall hlive hdoing hwork hdecide hgiven =>
      exact later_modify rfl rfl (fun _ => rfl) (fun _ hclosed => hclosed)
  | forgets hcall hclosed => exact later_forget s _
  | closesOutside call hstorm => exact later_closeOutside s call
  | answers answer hdecision => exact later_answers answer hdecision
  | loses hstorm => exact later_congr rfl rfl

theorem detach_outside (s : Receiver) (call : Nat) : (s.detach call).outside = s.outside := by
  unfold Receiver.detach
  repeat' split
  all_goals rfl

theorem closeOutside_outside (s : Receiver) (call other : Nat) (h : other ∈ (s.closeOutside call).outside) :
    other ∈ s.outside ∨ ∃ found, (s.closeOutside call).heap[other]? = some found ∧ found.closed = true := by
  unfold Receiver.closeOutside at h ⊢
  split at h
  · exact Or.inl h
  · rename_i found hcall
    split at h
    · exact Or.inl h
    · rename_i hopen
      rcases List.mem_append.mp h with hold | hnew
      · exact Or.inl hold
      · obtain rfl := List.mem_singleton.mp hnew
        simp only [hopen]
        exact Or.inr ⟨_, Heap.modify_self hcall, rfl⟩

theorem forget_outside (s : Receiver) (call : Nat) : (s.forget call).outside = s.outside := by
  unfold Receiver.forget
  split <;> rfl

theorem HostMove.outside (hmove : HostMove calm s s') {other : Nat} (h : other ∈ s'.outside) :
    other ∈ s.outside ∨ ∃ found, s'.heap[other]? = some found ∧ found.closed = true := by
  cases hmove with
  | aside haside => exact Or.inl (haside.outside other h)
  | ends inProgress events hcall hlive => exact Or.inl (detach_outside s _ ▸ h)
  | closesAhead forward hdoing hcloses hcall hlive hopen hbare hbehind => exact Or.inl (detach_outside s _ ▸ h)
  | detaches hcall hlive hclosed => exact Or.inl (detach_outside s _ ▸ h)
  | forgets hcall hclosed => exact Or.inl (forget_outside s _ ▸ h)
  | closesOutside call hstorm => exact closeOutside_outside s call other h
  | _ => exact Or.inl h

theorem HostMove.sound (h : HostSound s) (hmove : HostMove calm s s') : HostSound s' := by
  refine { hmove.standing h.toStanding with outside := fun other hother => ?_ }
  rcases hmove.outside hother with hold | hnew
  · obtain ⟨found, hcall, hclosed⟩ := h.outside other hold
    obtain ⟨found', hcall', -, hkept⟩ := hmove.later.calls other found hcall
    exact ⟨found', hcall', hkept hclosed⟩
  · exact hnew

theorem HostMoves.sound (hmoves : HostMoves calm s s') (h : HostSound s) : HostSound s' :=
  hmoves.keeps (fun _ _ hsound hmove => hmove.sound hsound) h

theorem HostMoves.later (hmoves : HostMoves calm s s') : s.Later s' := by
  induction hmoves with
  | stay => exact Later.refl _
  | step _ hmove ih => exact ih.trans hmove.later

end

end AuditableMcp.Mcp.HostSeam
