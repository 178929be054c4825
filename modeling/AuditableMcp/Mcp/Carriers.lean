import AuditableMcp.Mcp.Courses
import AuditableMcp.Reference.Connections

-- An attempt that is not settled is on its way: it waits for the next round of its call, or it
-- went out in the round that is open.
namespace AuditableMcp.Mcp

open Transport

-- No call sent two attempts under one id.
def Apart (attempts : List Attempt) : Prop :=
  ∀ (attempt other : Nat) (entry entry' : Attempt), attempts[attempt]? = some entry → attempts[other]? = some entry' →
    entry.call = entry'.call → entry.event.id = entry'.event.id → attempt = other

-- The attempts a call lists are its own, each in one place.
structure ToolCall.Lists (attempts : List Attempt) (call : Nat) (found : ToolCall) : Prop where
  distinct : found.nextAwaiting.keys.Nodup ∧ (roundAwaiting found).keys.Nodup
  sound : ∀ id attempt, found.nextAwaiting.get id = some attempt ∨ (roundAwaiting found).get id = some attempt →
    ∃ entry, attempts[attempt]? = some entry ∧ entry.call = call ∧ entry.event.id = id ∧ entry.event.isAttempt = true
  apart : ∀ id attempt, found.nextAwaiting.get id = some attempt → (roundAwaiting found).get id ≠ some attempt

-- The attempt goes with the next round, which comes of itself or follows the one that is out.
structure Waits (found : ToolCall) (attempt : Nat) (event : ToolEvent) : Prop where
  listed : found.nextAwaiting.get event.id = some attempt
  buffered : event ∈ found.buffered
  running : found.finished = false
  due : found.cancelled = false → found.round.isSome = true ∨ found.roundScheduled = true

-- The attempt went out in the round that is open.
def IsOut (written : List Written) (call : Nat) (found : ToolCall) (attempt : Nat) (event : ToolEvent) : Prop :=
  ∃ round events frame, found.round = some round ∧ round.awaiting.get event.id = some attempt ∧
    Written.round call round.token events frame ∈ written ∧ event ∈ events

structure Carries (s : Transport) : Prop where
  owned : ∀ (attempt : Nat) (entry : Attempt), s.attempts[attempt]? = some entry → entry.call < s.calls.length
  lists : ∀ (call : Nat) (found : ToolCall), s.calls[call]? = some found → found.Lists s.attempts call
  carried : Apart s.attempts → ∀ (attempt : Nat) (entry : Attempt) (found : ToolCall),
    s.attempts[attempt]? = some entry → entry.settlement = none → s.calls[entry.call]? = some found →
      found.modern = true → Waits found attempt entry.event ∨ IsOut s.written entry.call found attempt entry.event

section

variable {config : TransportConfig} {s s' : Transport} {call : Nat} {found : ToolCall} {change : ToolCall → ToolCall}
  {attempts attempts' : List Attempt}

theorem Apart.before (h : Apart attempts') (hbefore : ∀ (attempt : Nat) (entry : Attempt), attempts[attempt]? = some entry →
    ∃ entry', attempts'[attempt]? = some entry' ∧ entry'.call = entry.call ∧ entry'.event = entry.event) :
    Apart attempts := by
  intro attempt other entry entry' hentry hentry' hcall hid
  obtain ⟨later, hlater, hc, he⟩ := hbefore attempt entry hentry
  obtain ⟨later', hlater', hc', he'⟩ := hbefore other entry' hentry'
  exact h attempt other later later' hlater hlater' (by rw [hc, hc', hcall]) (by rw [he, he', hid])

theorem Apart.progress (h : Apart attempts') (hprogress : Progress attempts attempts') : Apart attempts :=
  h.before fun attempt entry hentry => by
    obtain ⟨later, hlater, hsame⟩ := hprogress.later attempt entry hentry
    exact ⟨later, hlater, hsame.call, hsame.event⟩

theorem ToolCall.Lists.progress (h : found.Lists attempts call) (hprogress : Progress attempts attempts') :
    found.Lists attempts' call := by
  refine ⟨h.distinct, fun id attempt hlisted => ?_, h.apart⟩
  obtain ⟨entry, hentry, hcall, hid, hattempt⟩ := h.sound id attempt hlisted
  obtain ⟨later, hlater, hsame⟩ := hprogress.later attempt entry hentry
  exact ⟨later, hlater, hsame.call.trans hcall, by rw [hsame.event, hid], by rw [hsame.event, hattempt]⟩

-- A list of a call that stays or is emptied.
def Fewer (before after : OrderedMap JsString Nat) : Prop := after = before ∨ after = .empty

theorem Fewer.get {before after : OrderedMap JsString Nat} (h : Fewer before after) {id : JsString} {attempt : Nat}
    (hget : after.get id = some attempt) : before.get id = some attempt := by
  rcases h with rfl | rfl
  · exact hget
  · cases hget

theorem Fewer.nodup {before after : OrderedMap JsString Nat} (h : Fewer before after) (hbefore : before.keys.Nodup) :
    after.keys.Nodup := by
  rcases h with rfl | rfl
  · exact hbefore
  · exact List.nodup_nil

theorem ToolCall.Lists.fewer {after : ToolCall} (h : found.Lists attempts call)
    (hnext : Fewer found.nextAwaiting after.nextAwaiting) (hround : Fewer (roundAwaiting found) (roundAwaiting after)) :
    after.Lists attempts call := by
  refine ⟨⟨hnext.nodup h.distinct.1, hround.nodup h.distinct.2⟩, fun id attempt hlisted => ?_,
    fun id attempt hlisted hout => ?_⟩
  · exact h.sound id attempt (hlisted.imp hnext.get hround.get)
  · exact h.apart id attempt (hnext.get hlisted) (hround.get hout)

theorem IsOut.written {written more : List Written} {attempt : Nat} {event : ToolEvent}
    (h : IsOut written call found attempt event) : IsOut (written ++ more) call found attempt event := by
  obtain ⟨round, events, frame, hround, hlisted, hmem, hevent⟩ := h
  exact ⟨round, events, frame, hround, hlisted, List.mem_append_left _ hmem, hevent⟩

-- What changes one call, and settles attempts.
theorem Carries.update (h : Carries s) {more : List Written} (hcalls : s'.calls = s.calls.modify call change)
    (hprogress : Progress s.attempts s'.attempts) (hwritten : s'.written = s.written ++ more)
    (hmodern : ∀ before, (change before).modern = before.modern)
    (hlists : ∀ before, s.calls[call]? = some before → before.Lists s.attempts call → (change before).Lists s.attempts call)
    (hkept : ∀ before attempt entry, s.calls[call]? = some before → s'.attempts[attempt]? = some entry →
      entry.settlement = none → before.Lists s.attempts call →
        Waits before attempt entry.event ∨ IsOut s.written call before attempt entry.event →
          Waits (change before) attempt entry.event ∨ IsOut s'.written call (change before) attempt entry.event) :
    Carries s' := by
  refine ⟨fun attempt entry hentry => ?_, fun other after hafter => ?_, fun hapart attempt entry after hentry hopen hafter hm => ?_⟩
  · obtain ⟨before, hbefore, hsame⟩ := hprogress.back hentry
    rw [hcalls, List.length_modify, hsame.call]
    exact h.owned attempt before hbefore
  · rw [hcalls] at hafter
    obtain ⟨before, hbefore, rfl⟩ := Heap.getElem?_modify_iff.mp hafter
    apply ToolCall.Lists.progress _ hprogress
    by_cases hsame : call = other
    · subst hsame
      rw [if_pos rfl]
      exact hlists before hbefore (h.lists call before hbefore)
    · rw [if_neg hsame]
      exact h.lists other before hbefore
  · rw [hcalls] at hafter
    obtain ⟨before, hbefore, rfl⟩ := Heap.getElem?_modify_iff.mp hafter
    obtain ⟨entry', hentry', hlater⟩ := hprogress.back hentry
    have hold (hm : before.modern = true) := h.carried (hapart.progress hprogress) attempt entry' before hentry'
      (hlater.unsettled hopen) (hlater.call ▸ hbefore) hm
    rw [← hlater.call, ← hlater.event] at hold
    by_cases hsame : call = entry.call
    · subst hsame
      rw [if_pos rfl] at hm ⊢
      rw [hmodern] at hm
      exact hkept before attempt entry hbefore hentry hopen (h.lists _ before hbefore) (hold hm)
    · rw [if_neg hsame] at hm ⊢
      rw [hwritten]
      exact (hold hm).imp id IsOut.written

-- What changes nothing of where a call's attempts are.
theorem Carries.same (h : Carries s) (hcalls : s'.calls = s.calls.modify call change)
    (hprogress : Progress s.attempts s'.attempts) (hwritten : s'.written = s.written)
    (hmodern : ∀ before, (change before).modern = before.modern)
    (hnext : ∀ before, (change before).nextAwaiting = before.nextAwaiting)
    (hround : ∀ before, (change before).round = before.round)
    (hwaits : ∀ before attempt event, s.calls[call]? = some before → before.Lists s.attempts call →
      Waits before attempt event → Waits (change before) attempt event) : Carries s' := by
  have hawaiting (before : ToolCall) : roundAwaiting (change before) = roundAwaiting before := by
    unfold roundAwaiting
    rw [hround]
  have hnothing : s'.written = s.written ++ [] := by rw [hwritten, List.append_nil]
  refine h.update hcalls hprogress hnothing hmodern
    (fun before _ hlists => ?_) fun before attempt entry hbefore _ _ hlists hold => ?_
  · exact hlists.fewer (Or.inl (hnext before)) (Or.inl (hawaiting before))
  · refine hold.imp (hwaits before attempt entry.event hbefore hlists) ?_
    rintro ⟨round, events, frame, hbears, hout⟩
    rw [hwritten]
    exact ⟨round, events, frame, (hround before).trans hbears, hout⟩

theorem Carries.congr (h : Carries s) (hcalls : s'.calls = s.calls) (hprogress : Progress s.attempts s'.attempts)
    (hwritten : ∃ more, s'.written = s.written ++ more) : Carries s' := by
  obtain ⟨more, hwritten⟩ := hwritten
  have hsame : s'.calls = s.calls.modify 0 id := by rw [hcalls, List.modify_id]
  refine h.update hsame hprogress hwritten (fun _ => rfl) (fun _ _ hlists => hlists) fun _ _ _ _ _ _ _ hold => ?_
  rw [hwritten]
  exact hold.imp id IsOut.written

end

section

variable {config : TransportConfig} {s s' : Transport} {call attempt : Nat} {found : ToolCall} {entry : Attempt}
  {attempts attempts' : List Attempt} {awaiting : OrderedMap JsString Nat} {id : JsString}

theorem listed_settled {response : JsString × Nat → Json} {before : Attempt} (hlisted : awaiting.get id = some attempt)
    (hbefore : attempts[attempt]? = some before)
    (hlast : Progress (settleEach attempts response awaiting.entries) attempts')
    (hentry : attempts'[attempt]? = some entry) : entry.settlement.isSome = true := by
  obtain ⟨settled, hsettled, hdone⟩ :=
    @settleEach_settled response awaiting.entries attempts (id, attempt) before (OrderedMap.mem_of_get hlisted) hbefore
  obtain ⟨later, hlater, hsame⟩ := hlast.later attempt settled hsettled
  rw [hentry, Option.some_inj] at hlater
  exact hlater ▸ hsame.settled hdone

theorem open_absurd (hopen : entry.settlement = none) (hdone : entry.settlement.isSome = true) : False := by
  rw [hopen] at hdone
  cases hdone

-- `#release` settles what its call lists.
theorem released_settled (hlists : found.Lists s.attempts call)
    (hlisted : found.nextAwaiting.get id = some attempt ∨ (roundAwaiting found).get id = some attempt)
    (hentry : (unanswered (unanswered (unanswered s.attempts (roundAwaiting found)) found.nextAwaiting)
      (s.pendingOf call))[attempt]? = some entry) : entry.settlement.isSome = true := by
  obtain ⟨before, hbefore, -⟩ := hlists.sound id attempt hlisted
  rcases hlisted with hnext | hout
  · obtain ⟨middle, hmiddle, -⟩ := (unanswered_progress s.attempts (roundAwaiting found)).later attempt before hbefore
    exact listed_settled hnext hmiddle (unanswered_progress _ _) hentry
  · exact listed_settled hout hbefore ((unanswered_progress _ _).trans (unanswered_progress _ _)) hentry

theorem release_progress (s : Transport) (call : Nat) (found : ToolCall) : Progress s.attempts
    (unanswered (unanswered (unanswered s.attempts (roundAwaiting found)) found.nextAwaiting) (s.pendingOf call)) :=
  ((unanswered_progress _ _).trans (unanswered_progress _ _)).trans (unanswered_progress _ _)

theorem IsOut.listed {written : List Written} {event : ToolEvent} (h : IsOut written call found attempt event) :
    (roundAwaiting found).get event.id = some attempt := by
  obtain ⟨round, events, frame, hround, hlisted, -⟩ := h
  unfold roundAwaiting
  rw [hround]
  exact hlisted

theorem roundAwaiting_none (hround : found.round = none) : roundAwaiting found = .empty := by
  unfold roundAwaiting
  rw [hround]
  rfl

-- A call's end, under which its attempts are settled.
theorem Carries.closes (h : Carries s) {change : ToolCall → ToolCall} (hcall : s.calls[call]? = some found)
    (hcalls : s'.calls = s.calls.modify call change)
    (hattempts : s'.attempts = unanswered (unanswered (unanswered s.attempts (roundAwaiting found)) found.nextAwaiting)
      (s.pendingOf call)) (hwritten : s'.written = s.written)
    (hmodern : ∀ before, (change before).modern = before.modern)
    (hnext : ∀ before, (change before).nextAwaiting = .empty) (hround : ∀ before, (change before).round = none) :
    Carries s' := by
  have hnothing : s'.written = s.written ++ [] := by rw [hwritten, List.append_nil]
  refine h.update hcalls (hattempts ▸ release_progress s call found) hnothing hmodern (fun before _ hlists => ?_)
    fun before attempt entry hbefore hentry hopen hlists hold => ?_
  · exact hlists.fewer (Or.inr (hnext before)) (Or.inr (roundAwaiting_none (hround before)))
  · obtain rfl := Option.some_inj.mp (hcall.symm.trans hbefore)
    rw [hattempts] at hentry
    exact (open_absurd hopen (released_settled hlists (hold.imp Waits.listed IsOut.listed) hentry)).elim

theorem Carries.opens (h : Carries s) (frame : JsonRpcFrame) (id : RequestId) : Carries (s.takeCall frame id) := by
  have hnone : (s.opened frame id).1.nextAwaiting = .empty ∧ (s.opened frame id).1.round = none := by
    unfold opened
    cases issuedSession frame <;> exact ⟨rfl, rfl⟩
  refine ⟨fun attempt entry hentry => ?_, fun call found hfound => ?_, fun hapart attempt entry found hentry hopen hfound => ?_⟩
  · change entry.call < (s.calls ++ [(s.opened frame id).1]).length
    rw [List.length_append]
    have hlt := h.owned attempt entry hentry
    omega
  · rcases Heap.getElem?_append_iff.mp hfound with hold | ⟨-, rfl⟩
    · exact h.lists call found hold
    · refine ⟨?_, fun id attempt hlisted => ?_, fun id attempt hlisted => ?_⟩
      · rw [hnone.1, roundAwaiting_none hnone.2]
        exact ⟨List.nodup_nil, List.nodup_nil⟩
      · rw [hnone.1, roundAwaiting_none hnone.2] at hlisted
        rcases hlisted with hlisted | hlisted <;> cases hlisted
      · rw [hnone.1] at hlisted
        cases hlisted
  · rcases Heap.getElem?_append_iff.mp hfound with hold | ⟨hsame, -⟩
    · exact h.carried hapart attempt entry found hentry hopen hold
    · have hlt := h.owned attempt entry hentry
      omega

-- An attempt more, which its call lists where it is modern.
theorem Carries.grows (h : Carries s) {change : ToolCall → ToolCall} {event : ToolEvent}
    (hcall : s.calls[call]? = some found) (hcalls : s'.calls = s.calls.modify call change)
    (hattempts : s'.attempts = s.attempts ++ [⟨call, event, none, false⟩]) (hwritten : s'.written = s.written)
    (hmodern : (change found).modern = found.modern)
    (hlists : found.Lists s.attempts call → (change found).Lists s'.attempts call)
    (hnew : found.modern = true → Waits (change found) s.attempts.length event)
    (hkept : ∀ attempt entry, s.attempts[attempt]? = some entry → entry.event.id ≠ event.id →
      Waits found attempt entry.event ∨ IsOut s.written call found attempt entry.event →
        Waits (change found) attempt entry.event ∨ IsOut s.written call (change found) attempt entry.event) :
    Carries s' := by
  have hold {attempt : Nat} {entry : Attempt} (hentry : s.attempts[attempt]? = some entry) :
      s'.attempts[attempt]? = some entry := hattempts ▸ Heap.getElem?_append_iff.mpr (Or.inl hentry)
  have hlast : s'.attempts[s.attempts.length]? = some ⟨call, event, none, false⟩ :=
    hattempts ▸ Heap.getElem?_append_iff.mpr (Or.inr ⟨rfl, rfl⟩)
  refine ⟨fun attempt entry hentry => ?_, fun other after hafter => ?_,
    fun hapart attempt entry after hentry hopen hafter hm => ?_⟩
  · rw [hcalls, List.length_modify]
    rw [hattempts] at hentry
    rcases Heap.getElem?_append_iff.mp hentry with hbefore | ⟨-, rfl⟩
    · exact h.owned attempt entry hbefore
    · exact Heap.lt_of_getElem? hcall
  · rw [hcalls] at hafter
    obtain ⟨before, hbefore, rfl⟩ := Heap.getElem?_modify_iff.mp hafter
    have hlists' := h.lists other before hbefore
    by_cases hsame : call = other
    · subst hsame
      obtain rfl := Option.some_inj.mp (hcall.symm.trans hbefore)
      rw [if_pos rfl]
      exact hlists hlists'
    · rw [if_neg hsame]
      refine ⟨hlists'.distinct, fun id attempt hlisted => ?_, hlists'.apart⟩
      obtain ⟨entry, hentry, hrest⟩ := hlists'.sound id attempt hlisted
      exact ⟨entry, hold hentry, hrest⟩
  · rw [hcalls] at hafter
    obtain ⟨before, hbefore, rfl⟩ := Heap.getElem?_modify_iff.mp hafter
    have hapart' : Apart s.attempts := hapart.before fun attempt entry hentry => ⟨entry, hold hentry, rfl, rfl⟩
    rw [hwritten]
    rw [hattempts] at hentry
    rcases Heap.getElem?_append_iff.mp hentry with hbefore' | ⟨rfl, rfl⟩
    · have hcarried (hm : before.modern = true) := h.carried hapart' attempt entry before hbefore' hopen hbefore hm
      by_cases hsame : call = entry.call
      · subst hsame
        obtain rfl := Option.some_inj.mp (hcall.symm.trans hbefore)
        rw [if_pos rfl] at hm ⊢
        rw [hmodern] at hm
        refine hkept attempt entry hbefore' (fun hid => ?_) (hcarried hm)
        have hsame := hapart attempt s.attempts.length entry _ (hold hbefore') hlast rfl hid
        have hlt := Heap.lt_of_getElem? hbefore'
        omega
      · rw [if_neg hsame] at hm ⊢
        exact hcarried hm
    · obtain rfl := Option.some_inj.mp (hcall.symm.trans hbefore)
      rw [if_pos rfl] at hm ⊢
      rw [hmodern] at hm
      exact Or.inl (hnew hm)

end

section

variable {config : TransportConfig} {s s' : Transport} {call : Nat} {found : ToolCall} {event : ToolEvent}

theorem Carries.waits (h : Carries s) (hcall : s.calls[call]? = some found) (hattempt : event.isAttempt = true)
    (hmodern : found.modern = true) (hfinished : found.finished = false) (hcancelled : found.cancelled = false) :
    Carries ((s.note call event).sendAttempt call found event) := by
  rw [waits_eq hcall hmodern hfinished hcancelled]
  refine h.grows hcall rfl rfl rfl rfl (fun hlists =>
      ⟨⟨OrderedMap.nodup_keys_set hlists.distinct.1 _ _, hlists.distinct.2⟩, fun id attempt hlisted => ?_,
        fun id attempt hlisted hout => ?_⟩)
    (fun _ => ⟨OrderedMap.get_set_self .., ?_, hfinished, fun _ => Or.inr rfl⟩) fun attempt entry hentry hother hold => ?_
  · have hkept (hlisted : found.nextAwaiting.get id = some attempt ∨ (roundAwaiting found).get id = some attempt) :
        ∃ entry, (s.attempts ++ [⟨call, event, none, false⟩])[attempt]? = some entry ∧ entry.call = call ∧
          entry.event.id = id ∧ entry.event.isAttempt = true := by
      obtain ⟨entry, hentry, hrest⟩ := hlists.sound id attempt hlisted
      exact ⟨entry, Heap.getElem?_append_iff.mpr (Or.inl hentry), hrest⟩
    rcases hlisted with hnext | hout
    · change (found.nextAwaiting.set event.id s.attempts.length).get id = some attempt at hnext
      rw [OrderedMap.get_set] at hnext
      by_cases hid : event.id = id
      · rw [if_pos hid, Option.some_inj] at hnext
        subst hnext
        exact ⟨_, Heap.getElem?_append_iff.mpr (Or.inr ⟨rfl, rfl⟩), rfl, hid, hattempt⟩
      · rw [if_neg hid] at hnext
        exact hkept (Or.inl hnext)
    · exact hkept (Or.inr hout)
  · change (found.nextAwaiting.set event.id s.attempts.length).get id = some attempt at hlisted
    rw [OrderedMap.get_set] at hlisted
    by_cases hid : event.id = id
    · rw [if_pos hid, Option.some_inj] at hlisted
      obtain ⟨entry, hentry, -⟩ := hlists.sound id attempt (Or.inr hout)
      have hlt := Heap.lt_of_getElem? hentry
      omega
    · rw [if_neg hid] at hlisted
      exact hlists.apart id attempt hlisted hout
  · exact List.mem_append_right _ (List.mem_singleton.mpr rfl)
  · refine hold.imp (fun hwaits => ⟨?_, List.mem_append_left _ hwaits.buffered, hfinished, fun _ => Or.inr rfl⟩) id
    exact (OrderedMap.get_set_of_ne _ _ (Ne.symm hother)).trans hwaits.listed

-- What waits for the next round goes out in it.
theorem Carries.sendRound (h : Carries s) {requestId : RequestId} {token : JsString} (scheduled : Bool)
    (hcall : s.calls[call]? = some found) (hround : found.round = none) :
    Carries (s.sendRound call found requestId token scheduled) := by
  have hnone := roundAwaiting_none hround
  refine h.update rfl (.refl _) rfl (fun _ => rfl) (fun before hbefore hlists => ?_)
    fun before attempt entry hbefore _ _ _ hold => Or.inr ?_
  · obtain rfl := Option.some_inj.mp (hcall.symm.trans hbefore)
    refine ⟨⟨List.nodup_nil, hlists.distinct.1⟩, fun id attempt hlisted => hlists.sound id attempt (Or.inl ?_),
      fun id attempt hlisted => ?_⟩
    · rcases hlisted with hnext | hout
      · cases hnext
      · exact hout
    · cases hlisted
  · obtain rfl := Option.some_inj.mp (hcall.symm.trans hbefore)
    rcases hold with hwaits | hout
    · exact ⟨_, _, _, rfl, hwaits.listed, List.mem_append_right _ (List.mem_singleton.mpr rfl), hwaits.buffered⟩
    · have hlisted := hout.listed
      rw [hnone] at hlisted
      cases hlisted

-- A retry answers what its round carried, and what waits goes with a round to come.
theorem Carries.resumes (h : Carries s) {round : OpenRound} {state : JsString} (id : RequestId) (frame : JsonRpcFrame)
    (hopen : s.openRound state = some (call, round)) : Carries ((s.resume call round id frame).reschedule call) := by
  obtain ⟨-, ⟨found, hcall, hround⟩, -⟩ := openRound_eq_some.mp hopen
  obtain ⟨accepting, heq⟩ := @resumes_eq s call round found hcall id frame
  have hawaiting : roundAwaiting found = round.awaiting := by
    unfold roundAwaiting
    rw [hround]
    rfl
  rw [heq]
  have hnothing : s.written = s.written ++ [] := (List.append_nil _).symm
  refine h.update rfl (settleEach_progress _ _ _) hnothing (fun _ => rfl)
    (fun before _ hlists => ?_) fun before attempt entry hbefore hentry hunsettled hlists hold => Or.inl ?_
  · exact hlists.fewer (Or.inl rfl) (Or.inr rfl)
  · obtain rfl := Option.some_inj.mp (hcall.symm.trans hbefore)
    rcases hold with hwaits | hout
    · refine ⟨hwaits.listed, hwaits.buffered, hwaits.running, fun _ => Or.inr ?_⟩
      obtain ⟨own, hown, -, -, hattempt⟩ := hlists.sound _ attempt (Or.inl hwaits.listed)
      obtain ⟨later, hlater, hsame⟩ := (settleEach_progress s.attempts _ _).later attempt own hown
      have hown' : entry = later := Option.some_inj.mp (hentry.symm.trans hlater)
      have hany : found.buffered.any ToolEvent.isAttempt = true :=
        List.any_eq_true.mpr ⟨entry.event, hwaits.buffered, by rw [hown', hsame.event, hattempt]⟩
      simp [hany, hwaits.running]
    · have hlisted := hout.listed
      rw [hawaiting] at hlisted
      obtain ⟨before, hbefore, -⟩ := hlists.sound _ attempt (Or.inr (hawaiting ▸ hlisted))
      exact (open_absurd hunsettled (listed_settled hlisted hbefore (.refl _) hentry)).elim

theorem Carries.cancel (h : Carries s) (call : Nat) :
    Carries ((s.alter call fun found => { found with cancelled := true }).release call true) := by
  cases hcall : s.calls[call]? with
  | none =>
      rw [cancel_none hcall]
      exact h
  | some found =>
      by_cases htracked : s.tracked.get found.originalId = some call
      · rw [cancel_eq hcall htracked]
        exact h.closes hcall rfl rfl rfl (fun _ => rfl) (fun _ => rfl) fun _ => rfl
      · rw [cancel_untracked hcall htracked]
        exact h.same rfl (.refl _) rfl (fun _ => rfl) (fun _ => rfl) (fun _ => rfl) fun _ _ _ _ _ hwaits =>
          ⟨hwaits.listed, hwaits.buffered, hwaits.running, fun hlive => by cases hlive⟩

-- The handler concludes: what no round carried is unanswered.
theorem Carries.finishes (h : Carries s) (hcall : s.calls[call]? = some found) (answer : JsonRpcFrame) :
    Carries { s.alter call fun found => abandoning (concluding found answer) with
      attempts := unanswered s.attempts found.nextAwaiting } := by
  have hnothing : s.written = s.written ++ [] := (List.append_nil _).symm
  refine h.update rfl (unanswered_progress _ _) hnothing (fun _ => rfl)
    (fun before _ hlists => ?_) fun before attempt entry hbefore hentry hopen hlists hold => Or.inr ?_
  · exact hlists.fewer (Or.inr rfl) (Or.inl rfl)
  · obtain rfl := Option.some_inj.mp (hcall.symm.trans hbefore)
    rcases hold with hwaits | hout
    · obtain ⟨before, hbefore, -⟩ := hlists.sound _ attempt (Or.inl hwaits.listed)
      exact (open_absurd hopen (listed_settled hwaits.listed hbefore (.refl _) hentry)).elim
    · exact hout

theorem Move.carries (hmove : Move config s s') (hwired : Wired s) (h : Carries s) : Carries s' := by
  cases hmove with
  | aside haside =>
      obtain ⟨plain, hwritten, -⟩ := haside.written
      exact h.congr haside.calls (haside.attempts ▸ .refl _) ⟨plain, hwritten⟩
  | opens frame id => exact h.opens frame id
  | negotiates hcall hresult =>
      obtain ⟨sessions, rfl⟩ := negotiate_eq hresult
      exact h.same rfl (.refl _) rfl (fun _ => rfl) (fun _ => rfl) (fun _ => rfl) fun _ _ _ _ _ hwaits =>
        ⟨hwaits.listed, hwaits.buffered, hwaits.running, hwaits.due⟩
  | notes event hcall hlost =>
      exact h.same rfl (.refl _) rfl (fun _ => rfl) (fun _ => rfl) (fun _ => rfl) fun _ _ _ _ _ hwaits =>
        ⟨hwaits.listed, hwaits.buffered, hwaits.running, hwaits.due⟩
  | waits hcall hnegotiated hattempt hmodern hfinished hcancelled => exact h.waits hcall hattempt hmodern hfinished hcancelled
  | buffers hcall hnegotiated hmodern hfinished hcancelled =>
      rw [buffers_eq hcall hmodern hfinished hcancelled]
      exact h.same rfl (.refl _) rfl (fun _ => rfl) (fun _ => rfl) (fun _ => rfl) fun _ _ _ _ _ hwaits =>
        ⟨hwaits.listed, List.mem_append_left _ hwaits.buffered, hwaits.running, hwaits.due⟩
  | tells event frame hcall hnegotiated => exact h.congr rfl (.refl _) ⟨_, rfl⟩
  | @asks call found event hcall hmodern =>
      have hsame : s.calls = s.calls.modify call id := (List.modify_id ..).symm
      refine h.grows hcall hsame rfl rfl rfl (fun hlists => ?_) (fun hm => ?_)
        fun _ _ _ _ hold => hold
      · refine ⟨hlists.distinct, fun id attempt hlisted => ?_, hlists.apart⟩
        obtain ⟨entry, hentry, hrest⟩ := hlists.sound id attempt hlisted
        exact ⟨entry, Heap.getElem?_append_iff.mpr (Or.inl hentry), hrest⟩
      · rw [hmodern] at hm
        cases hm
  | endsRound scheduled hcall hopen hround hbuffered hfresh htracked => exact h.sendRound scheduled hcall hround
  | @unschedules call found hcall hidle =>
      refine h.same rfl (.refl _) rfl (fun _ => rfl) (fun _ => rfl) (fun _ => rfl) fun before attempt event hbefore _ hwaits =>
        ⟨hwaits.listed, hwaits.buffered, hwaits.running, fun hlive => Or.inl ?_⟩
      obtain rfl := Option.some_inj.mp (hcall.symm.trans hbefore)
      have hcurrent := (hwired.calls _ _ hcall).current hwaits.running hlive
      rcases hidle with hfinished | hcancelled | hnone | hempty
      · cases hwaits.running.symm.trans hfinished
      · cases hlive.symm.trans hcancelled
      · cases hround : found.round with
        | some round => rfl
        | none =>
            have hopen := hcurrent.mp hround
            rw [hnone] at hopen
            cases hopen
      · have hmem := hwaits.buffered
        rw [hempty] at hmem
        cases hmem
  | resumes id frame hopen => exact h.resumes id frame hopen
  | finishes answer hcall hfinished => exact h.finishes hcall answer
  | concludes answer frame hcall hfinished hcarries hanswer hsame =>
      refine h.update rfl (.refl _) rfl (fun _ => rfl) (fun _ _ hlists => ⟨hlists.distinct, hlists.sound, hlists.apart⟩)
        fun before attempt entry hbefore _ _ _ hold => Or.inr ?_
      obtain rfl := Option.some_inj.mp (hcall.symm.trans hbefore)
      rcases hold with hwaits | hout
      · cases hwaits.running.symm.trans hfinished
      · exact hout.written
  | suspends answer inbound hcall hfinished hanswer => exact h.congr rfl (.refl _) ⟨[], (List.append_nil _).symm⟩
  | releases final hcall htracked hfinished =>
      rw [release_eq hcall htracked]
      exact h.closes hcall rfl rfl rfl (fun _ => rfl) (fun _ => rfl) fun _ => rfl
  | cancels call => exact h.cancel call
  | holds held hcall hheld =>
      exact h.same rfl (.refl _) rfl (fun _ => rfl) (fun _ => rfl) (fun _ => rfl) fun _ _ _ _ _ hwaits =>
        ⟨hwaits.listed, hwaits.buffered, hwaits.running, hwaits.due⟩
  | settles hprogress => exact h.congr rfl hprogress ⟨[], (List.append_nil _).symm⟩
  | dropsAll hnone => exact h.congr rfl (.refl _) ⟨[], (List.append_nil _).symm⟩

theorem TransportRun.carries {actions : List TransportAction} (hrun : TransportRun config actions s) : Carries s := by
  refine hrun.keeps ⟨?_, ?_, ?_⟩ fun _ _ hsound hs hmove => hmove.carries hsound.wired hs
  · intro attempt entry hentry
    cases hentry
  · intro call found hcall
    cases hcall
  · intro _ attempt entry found hentry
    cases hentry

end

section

variable {config : TransportConfig} {s : Transport} {actions : List TransportAction} {attempt : Nat} {entry : Attempt}
  {found : ToolCall}

-- An attempt that no answer, timeout or end of its call has settled is in one place: in the
-- buffer that the next round empties, with a round out or scheduled, or in the round that is
-- open, which a retry on its token answers. Its call is still found under its id, so that
-- whatever ends the call settles the attempt.
theorem unsettled_carried (hrun : TransportRun config actions s) (hapart : Apart s.attempts) (hnamed : Named s)
    (hattempt : s.attempts[attempt]? = some entry) (hopen : entry.settlement = none)
    (hcall : s.calls[entry.call]? = some found) (hmodern : found.modern = true) :
    s.tracked.get found.originalId = some entry.call ∧
      ((Waits found attempt entry.event ∧ ¬IsOut s.written entry.call found attempt entry.event) ∨
        (IsOut s.written entry.call found attempt entry.event ∧ ¬Waits found attempt entry.event ∧
          ∃ round, found.round = some round ∧ s.openRound round.token = some (entry.call, round))) := by
  have hcarries := hrun.carries
  have hlists := hcarries.lists entry.call found hcall
  have hanchored := hrun.sound.anchored hnamed entry.call found hcall
  rcases hcarries.carried hapart attempt entry found hattempt hopen hcall hmodern with hwaits | hout
  · refine ⟨hanchored (Or.inr (Or.inr fun hempty => ?_)), Or.inl ⟨hwaits, fun hout => ?_⟩⟩
    · have hlisted := hwaits.listed
      rw [hempty] at hlisted
      cases hlisted
    · exact hlists.apart _ attempt hwaits.listed hout.listed
  · refine ⟨hanchored (Or.inr (Or.inl ?_)), Or.inr ⟨hout, fun hwaits => ?_, ?_⟩⟩
    · obtain ⟨round, -, -, hround, -⟩ := hout
      rw [hround]
      rfl
    · exact hlists.apart _ attempt hwaits.listed hout.listed
    · obtain ⟨round, -, -, hround, -⟩ := hout
      refine ⟨round, hround, openRound_eq_some.mpr ⟨?_, ⟨found, hcall, hround⟩, rfl⟩⟩
      exact (hrun.sound.wired.rounds _ _).mpr ⟨found, round, hcall, hround, rfl⟩

-- While the round of the call's attempt is out.
theorem unsettled_carried_out : ∃ s entry found, Reference.play Reference.seam (Reference.auditedCall.take 4) = some s ∧
    s.attempts[0]? = some entry ∧ s.calls[entry.call]? = some found ∧
      s.tracked.get found.originalId = some entry.call := by
  have htest : (Reference.play Reference.seam (Reference.auditedCall.take 4)).any (fun s =>
      s.attempts.length == 1 && s.calls.length == 1 && (s.attempts[0]?).any fun entry =>
        entry.settlement.isNone && Reference.callIs entry.call (fun found => found.modern) s) = true := by
    decide +kernel
  obtain ⟨s, hplay, hrun, hstate⟩ := Reference.of_play htest
  simp only [Bool.and_eq_true, beq_iff_eq] at hstate
  obtain ⟨⟨hattempts, hcalls⟩, hany⟩ := hstate
  obtain ⟨entry, hattempt, hentry⟩ := (Option.any_eq_true ..).mp hany
  simp only [Bool.and_eq_true, Option.isNone_iff_eq_none] at hentry
  obtain ⟨hopen, hcall⟩ := hentry
  obtain ⟨found, hcall, hmodern⟩ := Reference.of_callIs hcall
  have hapart : Apart s.attempts := by
    intro attempt other _ _ hentry hother _ _
    have hlt := Heap.lt_of_getElem? hentry
    have hlt' := Heap.lt_of_getElem? hother
    omega
  have hnamed : Named s := by
    obtain ⟨only, honly⟩ := List.length_eq_one_iff.mp hcalls
    unfold Named
    rw [honly]
    exact List.nodup_singleton _
  exact ⟨s, entry, found, hplay, hattempt, hcall,
    (unsettled_carried hrun hapart hnamed hattempt hopen hcall hmodern).1⟩

end

end AuditableMcp.Mcp
