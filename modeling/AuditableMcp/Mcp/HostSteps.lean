import AuditableMcp.Mcp.HostCourses

-- Every step of the host's seam is a sequence of moves.
namespace AuditableMcp.Mcp.HostSeam

open Receiver

section

variable {s s' : Receiver} {call : Nat} {found : HostCall} {sessionId : JsString} {doing : Doing} {calm : Prop}

theorem lookup_withoutMember (members : Members) (name : JsString) : Json.lookup (withoutMember members name) name = none := by
  induction members with
  | nil => rfl
  | cons member rest ih =>
      obtain ⟨key, value⟩ := member
      by_cases hkey : key = name
      · simpa [withoutMember, hkey] using ih
      · have hrest : withoutMember ((key, value) :: rest) name = (key, value) :: withoutMember rest name := by
          simp [withoutMember, hkey]
        rw [hrest, Json.lookup, if_neg hkey]
        exact ih

theorem lookup_append_self {members : Members} {name : JsString} (h : Json.lookup members name = none) (value : Json) :
    Json.lookup (members ++ [(name, value)]) name = some value := by
  induction members with
  | nil => simp [Json.lookup]
  | cons member rest ih =>
      obtain ⟨key, old⟩ := member
      by_cases hkey : key = name
      · simp [Json.lookup, hkey] at h
      · rw [Json.lookup, if_neg hkey] at h
        rw [List.cons_append, Json.lookup, if_neg hkey]
        exact ih h

theorem withoutAudit_bare (frame : JsonRpcFrame) : Bare (withoutAudit frame) := by
  unfold withoutAudit
  cases hresult : frame.result with
  | none =>
      unfold Bare
      rw [hresult]
      rfl
  | some result =>
      dsimp only
      by_cases hplain : (Json.lookup (metaOf (some (.obj result))) EXTENSION_ID).isNone = true
      · rw [if_pos hplain]
        unfold Bare
        rw [hresult]
        exact Option.isNone_iff_eq_none.mp hplain
      · rw [if_neg hplain]
        have hgone := lookup_withoutMember result META
        unfold Bare
        split
        · simp only [Option.map_some, metaOf, Option.bind_some, Json.get, hgone]
          rfl
        · simp only [Option.map_some, metaOf, Option.bind_some, Json.get, lookup_append_self hgone]
          exact lookup_withoutMember _ _

theorem errorFrame_bare (id : RequestId) (code : Json) (message : JsString) : Bare (errorFrame id code message) := rfl

theorem still (hheap : s'.heap = s.heap) (hcalls : s'.calls = s.calls) (hsessions : s'.bySession = s.bySession)
    (hunclosed : s'.unclosed = s.unclosed) (hheld : s'.held = s.held) (hchains : s'.chains = s.chains)
    (hdecisions : s'.decisions = s.decisions) (hasked : s'.asked = s.asked) (houtside : s'.outside = s.outside)
    (hsent : s'.sent = s.sent) (hdelivered : s'.delivered = s.delivered) : HostAside s s' :=
  ⟨hheap, hcalls, hsessions, hunclosed, hheld, hchains, hdecisions, hasked, fun _ h => houtside ▸ h,
    ⟨[], by rw [hsent, List.append_nil], fun _ h => by cases h⟩,
    ⟨[], by rw [hdelivered, List.append_nil], fun _ h => by cases h⟩⟩

theorem deliver_aside (s : Receiver) {shown : Shown} (hbare : shown.bare) : HostAside s (s.deliver shown) :=
  ⟨rfl, rfl, rfl, rfl, rfl, rfl, rfl, rfl, fun _ h => h, ⟨[], (List.append_nil _).symm, fun _ h => by cases h⟩,
    ⟨[shown], rfl, fun _ h => List.mem_singleton.mp h ▸ hbare⟩⟩

theorem answer_aside (s : Receiver) (call : Nat) {frame : JsonRpcFrame} (hbare : Bare frame) :
    HostAside s (s.deliver (.answer call frame)) := deliver_aside s hbare

theorem write_aside (s : Receiver) {sent : Sent} (hplain : sent.plain) : HostAside s (s.write sent) :=
  ⟨rfl, rfl, rfl, rfl, rfl, rfl, rfl, rfl, fun _ h => h, ⟨[sent], rfl, fun _ h => List.mem_singleton.mp h ▸ hplain⟩,
    ⟨[], (List.append_nil _).symm, fun _ h => by cases h⟩⟩

theorem forwarded_aside (s : Receiver) (call : Nat) {forward : Option JsonRpcFrame}
    (hbare : ∀ frame, forward = some frame → Bare frame) : HostAside s (s.forwarded call forward) := by
  refine ⟨rfl, rfl, rfl, rfl, rfl, rfl, rfl, rfl, fun _ h => h, ⟨[], (List.append_nil _).symm, fun _ h => by cases h⟩,
    ⟨_, rfl, fun one hone => ?_⟩⟩
  cases forward with
  | none => cases hone
  | some frame => exact List.mem_singleton.mp hone ▸ hbare frame rfl

theorem doing_inSession (s : Receiver) (sessionId : JsString) (job : Job) (other : JsString) :
    ((s.inSession sessionId job).chains other).doing = (s.chains other).doing := by
  rw [chains_inSession]
  split
  · rename_i hsame
    rw [hsame]
  · rfl

theorem doing_detach (s : Receiver) (call : Nat) (other : JsString) :
    ((s.detach call).chains other).doing = (s.chains other).doing := by rw [detach_chains]

theorem doing_goesOn (s : Receiver) (sessionId : JsString) (after : Option Doing) :
    ((s.goesOn sessionId after).chains sessionId).doing = after := by rw [chains_goesOn, if_pos rfl]

theorem doing_begins (s : Receiver) (sessionId : JsString) (after : Doing) :
    ((s.begins sessionId after).chains sessionId).doing = some after := by rw [chains_begins, if_pos rfl]

theorem isLive_iff : s.isLive call = true ↔ ∃ found, s.heap[call]? = some found ∧ found.ended = false := by
  unfold Receiver.isLive
  cases s.heap[call]? <;> simp

theorem endBehind_moves (hcall : s.heap[call]? = some found) (hlive : found.ended = false) :
    HostMoves calm s (s.endBehind call) := by
  simp only [Receiver.endBehind, hcall]
  exact .single (.ends false [] hcall hlive)

theorem doing_endBehind (s : Receiver) (call : Nat) (other : JsString) :
    ((s.endBehind call).chains other).doing = (s.chains other).doing := by
  unfold Receiver.endBehind
  split
  · rfl
  · rw [doing_inSession, doing_detach]

theorem endOnce_moves (s : Receiver) (call : Nat) : HostMoves calm s (s.endOnce call) := by
  unfold Receiver.endOnce
  by_cases hlive : s.isLive call = true
  · rw [if_pos hlive]
    obtain ⟨found, hcall, hopen⟩ := isLive_iff.mp hlive
    exact endBehind_moves hcall hopen
  · rw [if_neg hlive]
    exact .stay s

theorem doing_endOnce (s : Receiver) (call : Nat) (other : JsString) :
    ((s.endOnce call).chains other).doing = (s.chains other).doing := by
  unfold Receiver.endOnce
  split
  · exact doing_endBehind s call other
  · rfl

theorem endOnce_other {place : Nat} {other : HostCall} (hplace : s.heap[place]? = some other) (hother : call ≠ place) :
    (s.endOnce call).heap[place]? = some other := by
  unfold Receiver.endOnce
  split
  · rename_i hlive
    obtain ⟨found, hcall, hopen⟩ := isLive_iff.mp hlive
    simp only [Receiver.endBehind, hcall]
    change (s.detach call).heap[place]? = some other
    rw [detach_eq hcall hopen]
    exact Heap.modify_other hplace hother
  · exact hplace

-- A session's queue comes to its end.
theorem close_moves (howns : s.Owns sessionId call) (hdoing : (s.chains sessionId).doing = some doing)
    (hcloses : doing.closes = true) : HostMoves calm s (s.close sessionId call none) := by
  obtain ⟨found, hcall, rfl⟩ := howns
  simp only [Receiver.close, hcall]
  by_cases hclosed : found.closed = true
  · rw [if_pos hclosed]
    have hshown : HostMoves calm s (s.forwarded call none) := .single (.aside (forwarded_aside s call nofun))
    exact hshown.step (.stops hdoing fun _ => ⟨call, found, hcall, rfl, hclosed⟩)
  · rw [if_neg hclosed]
    exact .single (.closes hdoing hcloses hcall (Bool.not_eq_true _ ▸ hclosed))

theorem sealNext_moves {after : Ending} {events : List Json} (howns : s.Owns sessionId call)
    (hfinish : after.isFinish = false) (hdoing : (s.chains sessionId).doing = some doing)
    (hopen : ∀ call forward, doing ≠ .closing call forward)
    (hcloses : (Doing.sealing call events after).closes = doing.closes) :
    HostMoves calm s (s.sealNext sessionId call events after) := by
  cases events with
  | cons event rest =>
      have hasked : HostMoves calm s (s.ask (.handleOutcome event sessionId)) := .single (.seals event hdoing hopen)
      refine hasked.step (.goes hdoing ?_ ⟨howns, hfinish⟩ hopen nofun)
      rw [← hcloses]
      cases after <;> rfl
  | nil =>
      cases after with
      | nothing =>
          refine .single (.stops hdoing fun hclosed => ?_)
          rw [← hcloses] at hclosed
          cases hclosed
      | close => exact close_moves howns hdoing hcloses.symm
      | finish frame => cases hfinish

theorem mem_withMember {members : Members} {name : JsString} {value : Json} {entry : JsString × Json}
    (h : entry ∈ withMember members name value) : entry ∈ members ∨ entry = (name, value) := by
  induction members with
  | nil => exact Or.inr (List.mem_singleton.mp h)
  | cons member rest ih =>
      obtain ⟨key, old⟩ := member
      unfold withMember at h
      split at h
      · rcases List.mem_cons.mp h with hnew | hrest
        · exact Or.inr hnew
        · exact Or.inl (List.mem_cons_of_mem _ hrest)
      · rcases List.mem_cons.mp h with hsame | hrest
        · exact Or.inl (hsame ▸ List.mem_cons_self)
        · rcases ih hrest with hold | hnew
          · exact Or.inl (List.mem_cons_of_mem _ hold)
          · exact Or.inr hnew

theorem mem_assign {members : Members} {name : JsString} {value : Json} {entry : JsString × Json}
    (h : entry ∈ assign members name value) : entry ∈ members ∨ entry = (name, value) := by
  unfold assign at h
  split at h
  · exact Or.inl h
  · exact mem_withMember h

theorem answered_given {members : Members} (hgiven : ∀ entry ∈ members, s.Given sessionId entry) {id : JsString}
    {response : Json} (hone : s.Given sessionId (id, response)) :
    ∀ entry ∈ assign members id response, s.Given sessionId entry := by
  intro entry hentry
  rcases mem_assign hentry with hold | rfl
  · exact hgiven entry hold
  · exact hone

theorem answers_given {work : RoundWork} (hgiven : ∀ entry ∈ work.responses, s.Given sessionId entry) :
    ∀ entry ∈ work.answers, s.Given sessionId entry := by
  unfold RoundWork.answers
  split
  · generalize work.responses = responses at hgiven
    generalize work.events.filterMap answerableAttempt = ids
    induction ids generalizing responses with
    | nil => exact hgiven
    | cons id rest ih => exact ih _ (answered_given hgiven (Or.inl rfl))
  · exact hgiven

theorem evict_moves (s : Receiver) (call : Nat) : HostMoves calm s (s.evict call) := by
  unfold Receiver.evict
  split
  · exact .stay s
  · exact endOnce_moves s call

theorem doing_evict (s : Receiver) (call : Nat) (other : JsString) :
    ((s.evict call).chains other).doing = (s.chains other).doing := by
  unfold Receiver.evict
  split
  · rfl
  · exact doing_endOnce s call other

theorem evictions_moves (entries : List (JsString × Nat)) (s : Receiver) :
    HostMoves calm s (entries.foldl (fun s entry => s.evict entry.2) s) := by
  induction entries generalizing s with
  | nil => exact .stay s
  | cons entry rest ih => exact (evict_moves s entry.2).trans (ih (s.evict entry.2))

theorem evictions_doing (entries : List (JsString × Nat)) (s : Receiver) (other : JsString) :
    ((entries.foldl (fun s entry => s.evict entry.2) s).chains other).doing = (s.chains other).doing := by
  induction entries generalizing s with
  | nil => rfl
  | cons entry rest ih => exact (ih (s.evict entry.2)).trans (doing_evict s entry.2 other)

-- Another call's round is not held under the same state any more.
theorem freed_holds (h : HostSound s) (hcall : s.heap[call]? = some found) (state : JsString) {freed : Receiver}
    (hfreed : freed = match s.held.get state with
      | none => s
      | some previous => if previous = call then s else s.endOnce previous) :
    HostMoves calm s freed ∧ freed.heap[call]? = some found ∧ (∀ other, freed.held.get state = some other → other = call) ∧
      ∀ other, (freed.chains other).doing = (s.chains other).doing := by
  cases hget : s.held.get state with
  | none =>
      rw [hget] at hfreed
      subst hfreed
      refine ⟨.stay _, hcall, fun other hother => ?_, fun _ => rfl⟩
      rw [hget] at hother
      cases hother
  | some previous =>
      rw [hget] at hfreed
      by_cases hsame : previous = call
      · simp only [hsame, if_true] at hfreed
        subst hfreed
        refine ⟨.stay _, hcall, fun other hother => ?_, fun _ => rfl⟩
        rw [hget] at hother
        exact (Option.some_inj.mp hother).symm.trans hsame
      · simp only [hsame, if_false] at hfreed
        subst hfreed
        refine ⟨endOnce_moves s previous, endOnce_other hcall hsame, fun other hother => ?_, doing_endOnce s previous⟩
        obtain ⟨held, responses, hprevious, hheld⟩ := h.tables.held state previous hget
        obtain ⟨-, hlive⟩ := h.tables.holds previous held state responses hprevious hheld
        have hended : s.endOnce previous = s.endBehind previous := if_pos (isLive_iff.mpr ⟨held, hprevious, hlive⟩)
        simp only [hended, Receiver.endBehind, hprevious] at hother
        change (s.detach previous).held.get state = some other at hother
        rw [detach_eq hprevious hlive] at hother
        obtain ⟨hold, hne⟩ := (h.tables.get_heldWithout hprevious state other).mp hother
        rw [hget] at hold
        exact absurd (Option.some_inj.mp hold).symm hne

theorem hold_moves (h : HostSound s) (hcall : s.heap[call]? = some found) (hlive : found.ended = false) (state : JsString)
    {responses : Members} (hgiven : ∀ entry ∈ responses, s.Given found.sessionId entry) :
    HostMoves calm s (s.hold call state responses) ∧
      ∀ other, ((s.hold call state responses).chains other).doing = (s.chains other).doing := by
  unfold Receiver.hold
  extract_lets freed
  obtain ⟨hfreed, hcall', hfree, hdoing⟩ : HostMoves calm s freed ∧ _ := freed_holds h hcall state rfl
  clear_value freed
  simp only [hcall']
  have hheld := hfreed.step (.holds hcall' hlive hfree fun entry hentry => Given.later (hgiven entry hentry) hfreed.later)
  refine ⟨hheld.trans (evictions_moves _ _), fun other => ?_⟩
  exact (evictions_doing _ _ other).trans (hdoing other)

theorem roundOver_moves (h : HostSound s) {work first : RoundWork} (inProgress : Bool)
    (hdoing : (s.chains sessionId).doing = some (.processing first)) (howns : s.Owns sessionId work.call)
    (hgiven : ∀ entry ∈ work.responses, s.Given sessionId entry) (hcall : work.call = first.call)
    (hdecide : work.decide = first.decide) : HostMoves calm s (s.roundOver sessionId work inProgress) := by
  obtain ⟨found, hfound, rfl⟩ := howns
  have hstops {s' : Receiver} (hdoing' : (s'.chains found.sessionId).doing = some (.processing first)) :
      HostMove calm s' (s'.goesOn found.sessionId none) := .stops hdoing' nofun
  simp -zeta only [Receiver.roundOver, hfound]
  by_cases hended : found.ended = true
  · rw [if_pos hended]
    cases hleft : work.leftover inProgress with
    | none => exact .single (hstops hdoing)
    | some left =>
        obtain ⟨sealing, outcomes⟩ := left
        dsimp only
        split
        · exact .single (.goes hdoing rfl ⟨⟨found, hfound, rfl⟩, rfl⟩ nofun nofun)
        · exact sealNext_moves ⟨found, hfound, rfl⟩ rfl hdoing nofun rfl
  · have hlive : found.ended = false := Bool.not_eq_true _ ▸ hended
    rw [if_neg hended]
    by_cases hround : work.decide = true
    · rw [if_neg (by simp [hround])]
      extract_lets queued state
      obtain ⟨hmoves, hfound', hdoing'⟩ : HostMoves calm s queued ∧ queued.heap[work.call]? = some found ∧
          (queued.chains found.sessionId).doing = some (.processing first) := by
        subst queued
        cases hleft : work.leftover inProgress with
        | none => exact ⟨.stay s, hfound, hdoing⟩
        | some left =>
            refine ⟨.single (.queues rfl ⟨⟨found, hfound, rfl⟩, rfl⟩ (Or.inr ⟨_, found, hfound, hlive, rfl⟩)), hfound, ?_⟩
            rw [doing_inSession, hdoing]
      clear_value queued state
      have hanswers : ∀ entry ∈ work.answers, queued.Given found.sessionId entry :=
        fun entry hentry => Given.later (answers_given hgiven entry hentry) hmoves.later
      split
      · obtain ⟨hheld, hstays⟩ := hold_moves (hmoves.sound h) hfound' hlive state hanswers
        exact (hmoves.trans hheld).step (.aside (answer_aside _ _ (withoutAudit_bare _))) |>.step
          (hstops ((hstays found.sessionId).trans hdoing'))
      · exact hmoves.step (.retries _ hfound' hlive hdoing' hcall.symm (hdecide ▸ hround) hanswers)
    · simp only [Bool.not_eq_true] at hround
      rw [if_pos (by simp [hround])]
      extract_lets left
      have hends : HostMoves calm s ((s.detach work.call).inSession found.sessionId (.seals work.call left.1 left.2 .close)) :=
        .single (.ends _ _ hfound hlive)
      refine (hends.step (.aside (answer_aside _ _ (errorFrame_bare _ _ _)))).step (hstops ?_)
      change (((s.detach work.call).inSession found.sessionId _).chains found.sessionId).doing = _
      rw [doing_inSession, doing_detach, hdoing]

theorem processFrom_moves (h : HostSound s) {work first : RoundWork} (events : List Json)
    (hdoing : (s.chains sessionId).doing = some (.processing first)) (howns : s.Owns sessionId work.call)
    (hgiven : ∀ entry ∈ work.responses, s.Given sessionId entry) (hcall : work.call = first.call)
    (hdecide : work.decide = first.decide) : HostMoves calm s (s.processFrom sessionId work events) := by
  induction events with
  | nil => exact roundOver_moves h false hdoing howns hgiven hcall hdecide
  | cons event rest ih =>
      unfold Receiver.processFrom
      split
      · exact roundOver_moves h false hdoing howns hgiven hcall hdecide
      · cases hid : answerableAttempt event with
        | none =>
            have hasked : HostMoves calm s (s.ask (.handleOutcome event sessionId)) := .single (.seals event hdoing nofun)
            refine hasked.step (.goes hdoing rfl ⟨howns, hgiven, nofun⟩ nofun fun work' hwork => ?_)
            obtain rfl := Doing.processing.inj hwork
            exact ⟨first, rfl, hcall, hdecide⟩
        | some id =>
            dsimp only
            split
            · have htaken : HostMoves calm s (s.takeDecision event sessionId) := .single (.decides event hdoing nofun)
              have hlater := later_takeDecision s event sessionId
              refine htaken.step (.goes hdoing rfl ⟨Owns.later howns hlater,
                fun entry hentry => Given.later (hgiven entry hentry) hlater, fun id' decision hawaiting => ?_⟩
                nofun fun work' hwork => ?_)
              · obtain ⟨rfl, rfl⟩ := Prod.mk.inj (Option.some_inj.mp hawaiting)
                exact ⟨event, none, Heap.getElem?_append_iff.mpr (Or.inr ⟨rfl, rfl⟩), hid⟩
              · obtain rfl := Doing.processing.inj hwork
                exact ⟨first, rfl, hcall, hdecide⟩
            · exact ih

theorem follow_moves (h : HostSound s) {frame : JsonRpcFrame} (hdoing : (s.chains sessionId).doing = some .ending)
    (howns : s.Owns sessionId call) (hasks : concludes frame = false) : HostMoves calm s (s.follow sessionId call frame) := by
  obtain ⟨found, hcall, rfl⟩ := howns
  simp only [concludes, Bool.or_eq_false_iff, Bool.not_eq_eq_eq_not, Bool.not_false] at hasks
  obtain ⟨hresult, hcontinues⟩ := hasks
  simp -zeta only [Receiver.follow, hcall, hresult, hcontinues]
  by_cases hended : found.ended = true
  · rw [if_pos hended]
    exact .single (.stops hdoing nofun)
  · rw [if_neg hended, if_neg Bool.false_ne_true]
    extract_lets events decided
    have hbegun : HostMove calm s (s.beginRound found.sessionId call frame decided) := by
      refine .rounds frame decided hcall hdoing fun hdecided => ?_
      exact of_decide_eq_true (Bool.and_eq_true_iff.mp hdecided).1
    apply (HostMoves.single hbegun).trans
    refine processFrom_moves (hbegun.sound h) events (doing_goesOn _ _ _) ⟨_, Heap.modify_self hcall, rfl⟩ ?_ rfl rfl
    exact fun _ hentry => by cases hentry

theorem start_moves (h : HostSound s) {job : Job} {jobs : List Job} (hchain : s.chains sessionId = ⟨none, job :: jobs⟩) :
    HostMoves calm s (s.start sessionId job) := by
  have hfits : job.Fits s sessionId := h.fitted.jobs sessionId job (by rw [hchain]; exact List.mem_cons_self)
  cases job with
  | attempt id event =>
      have hbegun : HostMove calm s (s.begins sessionId .ending) := .begins hchain rfl trivial nofun
      have htaken := (HostMoves.single hbegun).step (.decides event (doing_begins s sessionId .ending) nofun)
      refine htaken.step (.goes (doing_begins s sessionId .ending) rfl ⟨none, ?_⟩ nofun nofun)
      exact Heap.getElem?_append_iff.mpr (Or.inr ⟨rfl, rfl⟩)
  | outcome event =>
      have hbegun : HostMove calm s (s.begins sessionId .ending) := .begins hchain rfl trivial nofun
      exact (HostMoves.single hbegun).step (.seals event (doing_begins s sessionId .ending) nofun)
  | seals call inProgress events after =>
      have hbegun : HostMove calm s (s.begins sessionId (.sealing call events after)) :=
        .begins hchain (by cases after <;> rfl) hfits nofun
      unfold Receiver.start
      dsimp only
      split
      · exact .single hbegun
      · exact (HostMoves.single hbegun).trans
          (sealNext_moves hfits.1 hfits.2 (doing_begins s sessionId _) nofun rfl)
  | follow call frame =>
      have hbegun : HostMove calm s (s.begins sessionId .ending) := .begins hchain rfl trivial nofun
      exact (HostMoves.single hbegun).trans
        (follow_moves (hbegun.sound h) (doing_begins s sessionId .ending) hfits.1 hfits.2)

theorem forget_chains (s : Receiver) (call : Nat) : (s.forget call).chains = s.chains := by
  unfold Receiver.forget
  split <;> rfl

theorem forget_heap (s : Receiver) (call : Nat) : (s.forget call).heap = s.heap := by
  unfold Receiver.forget
  split <;> rfl

theorem reply_moves {id : RequestId} {event response : Json} (hdoing : (s.chains sessionId).doing = some doing)
    (hcloses : doing.closes = false) (hopen : ∀ call forward, doing ≠ .closing call forward)
    (hreplied : s.Replied sessionId event response) :
    HostMoves calm s (s.reply sessionId id event response) := by
  have hwritten : HostMoves calm s (s.write (.answer sessionId event response (responseFrame id response))) :=
    .single (.replies _ hreplied)
  exact hwritten.step (.goes hdoing hcloses.symm trivial hopen nofun)

theorem answerAt_eq {decision : Nat} {response : Json} (h : s.answerAt decision = some response) :
    ∃ event sessionId, s.decisions[decision]? = some ⟨event, sessionId, some response⟩ := by
  obtain ⟨⟨event, sessionId, answer⟩, hdecision, hanswer⟩ := Option.bind_eq_some_iff.mp h
  have hsome : answer = some response := hanswer
  exact ⟨event, sessionId, hsome ▸ hdecision⟩

theorem settle_moves (h : HostSound s) (hdoing : (s.chains sessionId).doing = some doing)
    (hsettle : s.settle sessionId doing = some s') : HostMoves calm s s' := by
  have hfits := h.fitted.doing sessionId doing hdoing
  cases doing with
  | deciding id event decision =>
      obtain ⟨response, hanswer, rfl⟩ := Option.map_eq_some_iff.mp hsettle
      obtain ⟨event', sessionId', hdecided⟩ := answerAt_eq hanswer
      obtain ⟨answer, hdecision⟩ := hfits
      rw [hdecision] at hdecided
      obtain ⟨rfl, rfl, rfl⟩ := Decision.mk.inj (Option.some_inj.mp hdecided)
      exact reply_moves hdoing rfl nofun (Or.inr ⟨decision, hdecision⟩)
  | sealing call events after =>
      obtain rfl := Option.some_inj.mp hsettle
      exact sealNext_moves hfits.1 hfits.2 hdoing nofun rfl
  | processing work =>
      simp only [Receiver.settle] at hsettle
      split at hsettle
      · rename_i id decision hawaiting
        obtain ⟨response, hanswer, rfl⟩ := Option.map_eq_some_iff.mp hsettle
        obtain ⟨event', sessionId', hdecided⟩ := answerAt_eq hanswer
        obtain ⟨event, answer, hdecision, hid⟩ := hfits.2.2 id decision hawaiting
        rw [hdecision] at hdecided
        obtain ⟨rfl, rfl, rfl⟩ := Decision.mk.inj (Option.some_inj.mp hdecided)
        exact processFrom_moves h work.events hdoing hfits.1
          (answered_given hfits.2.1 (Or.inr ⟨decision, event, hdecision, hid⟩)) rfl rfl
      · obtain rfl := Option.some_inj.mp hsettle
        exact processFrom_moves h work.events hdoing hfits.1 hfits.2.1 rfl rfl
  | retrying call =>
      obtain rfl := Option.some_inj.mp hsettle
      exact .single (.stops hdoing nofun)
  | closing call forward =>
      obtain rfl := Option.some_inj.mp hsettle
      obtain ⟨⟨found, hcall, hsession, hclosed⟩, hbare⟩ := hfits
      have hforgotten : HostMoves calm s (s.forget call) := .single (.forgets hcall hclosed)
      have hshown := hforgotten.step (.aside (forwarded_aside (s.forget call) call hbare))
      refine hshown.step (.stops (forget_chains s call ▸ hdoing) fun _ => ⟨call, found, ?_, hsession, hclosed⟩)
      exact (congrArg (·[call]?) (forget_heap s call)).trans hcall
  | ending =>
      obtain rfl := Option.some_inj.mp hsettle
      exact .single (.stops hdoing nofun)

theorem timeOut_moves (h : HostSound s) (hdoing : (s.chains sessionId).doing = some doing)
    (htimeOut : s.timeOut sessionId doing = some s') : HostMoves calm s s' := by
  have hfits := h.fitted.doing sessionId doing hdoing
  cases doing with
  | deciding id event decision =>
      obtain rfl := Option.some_inj.mp htimeOut
      exact reply_moves hdoing rfl nofun (Or.inl rfl)
  | processing work =>
      simp only [Receiver.timeOut] at htimeOut
      split at htimeOut
      · cases htimeOut
      · split at htimeOut
        · obtain rfl := Option.some_inj.mp htimeOut
          exact roundOver_moves h false hdoing hfits.1 (answered_given hfits.2.1 (Or.inl rfl)) rfl rfl
        · obtain rfl := Option.some_inj.mp htimeOut
          exact roundOver_moves h true hdoing hfits.1 hfits.2.1 rfl rfl
  | _ => cases htimeOut

-- The session an event is put to is a live call's, or none.
theorem expectedSession_live (h : HostSound s) (event : Json) (related : Option RequestId) :
    s.expectedSession event related = NO_CALL_IN_FLIGHT ∨ ∃ (call : Nat) (found : HostCall), s.heap[call]? = some found ∧
      found.ended = false ∧ found.sessionId = s.expectedSession event related := by
  unfold Receiver.expectedSession
  cases hrelated : s.relatedCall related with
  | some found =>
      obtain ⟨call, hget, hcall⟩ := Option.bind_eq_some_iff.mp hrelated
      obtain ⟨id, -, hget⟩ := Option.bind_eq_some_iff.mp hget
      obtain ⟨found', hcall', hlive, -⟩ := h.tables.flight id call hget
      rw [hcall] at hcall'
      obtain rfl := Option.some_inj.mp hcall'
      exact Or.inr ⟨call, found, hcall, hlive, rfl⟩
  | none =>
      dsimp only
      split
      · split
        · rename_i sid hnamed hhas
          obtain ⟨call, hget⟩ := (OrderedMap.has_eq_true _ _).mp hhas
          obtain ⟨found, hcall, hlive, hsession⟩ := h.tables.sessions sid call hget
          exact Or.inr ⟨call, found, hcall, hlive, hsession⟩
        · exact Or.inl rfl
      · exact Or.inl rfl

theorem receive_moves (s : Receiver) (frame : JsonRpcFrame) : HostMoves calm s (s.receive frame) := by
  unfold Receiver.receive
  split
  · exact .single (.aside (still rfl rfl rfl rfl rfl rfl rfl rfl rfl rfl rfl))
  · split
    · split
      · exact .single (.aside (write_aside s trivial))
      · exact .single (.aside (still rfl rfl rfl rfl rfl rfl rfl rfl rfl rfl rfl))
    · split
      · exact .stay s
      · exact .single (.aside (still rfl rfl rfl rfl rfl rfl rfl rfl rfl rfl rfl))
    · exact .single (.aside (still rfl rfl rfl rfl rfl rfl rfl rfl rfl rfl rfl))

theorem concludeCall_moves (hcall : s.heap[call]? = some found) (hlive : found.ended = false) (frame : JsonRpcFrame) :
    HostMoves calm s (s.concludeCall call found frame) := by
  have hends : HostMoves calm s ((s.detach call).inSession found.sessionId (.seals call false
      (if frame.error.isNone then (frame.result.map eventsOf).getD [] else []) .close)) := .single (.ends false _ hcall hlive)
  exact hends.step (.aside (answer_aside _ _ (withoutAudit_bare _)))

theorem takeResponse_moves (h : HostSound s) (frame : JsonRpcFrame) (id : RequestId) :
    HostMoves calm s (s.takeResponse frame id) := by
  have hdropped : HostMoves calm s (if id ∈ s.endedIds then { s with endedIds := s.endedIds.filter fun other => other ≠ id }
      else s.receive frame) := by
    split
    · exact .single (.aside (still rfl rfl rfl rfl rfl rfl rfl rfl rfl rfl rfl))
    · exact receive_moves s frame
  unfold Receiver.takeResponse
  split
  · rename_i call found hfound
    obtain ⟨place, hget, hplace⟩ := Option.bind_eq_some_iff.mp hfound
    obtain ⟨found', hcall, hpair⟩ := Option.map_eq_some_iff.mp hplace
    obtain ⟨rfl, rfl⟩ := Prod.mk.inj hpair
    obtain ⟨found'', hcall', hlive, -⟩ := h.tables.flight id place hget
    rw [hcall] at hcall'
    obtain rfl := Option.some_inj.mp hcall'
    split
    · split
      · exact concludeCall_moves hcall hlive frame
      · rename_i hasks
        have hasks' : concludes frame = false := by simpa [hlive] using hasks
        exact .single (.queues rfl ⟨⟨found', hcall, rfl⟩, hasks'⟩ (Or.inr ⟨place, found', hcall, hlive, rfl⟩))
    · exact hdropped
  · exact hdropped

theorem enqueue_moves (h : HostSound s) (frame : JsonRpcFrame) (related : Option RequestId) :
    HostMoves calm s (s.enqueue frame related) := by
  unfold Receiver.enqueue
  split
  · split
    · exact .single (.queues rfl trivial (expectedSession_live h _ _))
    · exact receive_moves s frame
  · split
    · exact .single (.queues rfl trivial (expectedSession_live h _ _))
    · exact receive_moves s frame
  · exact takeResponse_moves h frame _
  · exact receive_moves s frame

theorem dropLater_aside (s : Receiver) (id : RequestId) : HostAside s (s.dropLater id) :=
  still rfl rfl rfl rfl rfl rfl rfl rfl rfl rfl rfl

theorem callOf_live (h : HostSound s) {clientId : RequestId} (hfound : s.callOf clientId = some (call, found)) :
    s.heap[call]? = some found ∧ found.ended = false := by
  obtain ⟨entry, hfind, hplace⟩ := Option.bind_eq_some_iff.mp hfound
  obtain ⟨found', hcall, hpair⟩ := Option.map_eq_some_iff.mp hplace
  obtain ⟨rfl, rfl⟩ := Prod.mk.inj hpair
  obtain ⟨id, place⟩ := entry
  have hget := (OrderedMap.mem_entries_iff h.tables.callsDistinct id place).mp (List.mem_of_find?_eq_some hfind)
  obtain ⟨found'', hcall', hlive, -⟩ := h.tables.flight id place hget
  rw [hcall] at hcall'
  obtain rfl := Option.some_inj.mp hcall'
  exact ⟨hcall, hlive⟩

theorem cancel_moves (h : HostSound s) (frame : JsonRpcFrame) : HostMoves calm s (s.cancel frame) := by
  unfold Receiver.cancel
  split
  · exact .single (.aside (write_aside s trivial))
  · rename_i call found hfound
    obtain ⟨id, -, hcallOf⟩ := Option.bind_eq_some_iff.mp hfound
    obtain ⟨hcall, hlive⟩ := callOf_live h hcallOf
    have hdropped : HostMoves calm s ((s.endBehind call).dropLater found.currentId) :=
      (endBehind_moves hcall hlive).step (.aside (dropLater_aside _ _))
    exact hdropped.step (.aside (write_aside _ trivial))

theorem abandon_moves (s : Receiver) (call : Nat) : HostMoves calm s (s.abandon call) := by
  unfold Receiver.abandon
  split
  · exact .stay s
  · rename_i found hcall
    split
    · exact .stay s
    · rename_i hlive
      exact (endBehind_moves hcall (Bool.not_eq_true _ ▸ hlive)).step (.aside (dropLater_aside _ _))

theorem heldFor_eq {params : Members} {responses : Members} (h : s.heldFor params = some (call, found, responses)) :
    s.heap[call]? = some found ∧ ∃ state, found.held = some (state, responses) := by
  unfold Receiver.heldFor at h
  split at h
  · obtain ⟨place, -, hplace⟩ := Option.bind_eq_some_iff.mp h
    obtain ⟨found', hcall, hheld⟩ := Option.bind_eq_some_iff.mp hplace
    obtain ⟨⟨state, responses'⟩, hsome, htriple⟩ := Option.map_eq_some_iff.mp hheld
    obtain ⟨rfl, hpair⟩ := Prod.mk.inj htriple
    obtain ⟨rfl, rfl⟩ := Prod.mk.inj hpair
    exact ⟨hcall, state, hsome⟩
  · cases h

theorem outbound_moves (h : HostSound s) (capability : AuditCapability) (frame : JsonRpcFrame) (signal : Bool)
    (hfresh : s.fresh sessionId = true) : HostMoves calm s (s.outbound capability frame sessionId signal) := by
  unfold Receiver.outbound
  split
  · split
    · exact cancel_moves h frame
    · exact .single (.aside (write_aside s trivial))
  · rename_i method id _ _
    have hshakes : HostAside s (s.shakes method id) := by
      unfold Receiver.shakes
      split <;> exact still rfl rfl rfl rfl rfl rfl rfl rfl rfl rfl rfl
    have hfresh' : (s.shakes method id).fresh sessionId = true := by
      unfold Receiver.fresh at hfresh ⊢
      rw [hshakes.heap]
      exact hfresh
    have hshaken : HostMoves calm s (s.shakes method id) := .single (.aside hshakes)
    extract_lets shaken
    split
    · exact hshaken.step (.aside (write_aside _ trivial))
    · split
      · exact hshaken.step (.aside (write_aside _ trivial))
      · extract_lets params
        split
        · exact hshaken.step (.aside (write_aside _ trivial))
        · split
          · rename_i hheld
            obtain ⟨hcall, state, hsome⟩ := heldFor_eq hheld
            exact hshaken.step (.resumes frame id params signal hcall hsome)
          · split
            · exact hshaken.step (.aside (write_aside _ trivial))
            · exact hshaken.step (.opens frame id params signal hfresh')
  · exact .single (.aside (write_aside s trivial))

-- A retry that was not sent ends its call at once.
theorem endNow_moves {forward : JsonRpcFrame} (hcall : s.heap[call]? = some found) (hlive : found.ended = false)
    (hdoing : (s.chains found.sessionId).doing = some doing) (hcloses : doing.closes = false) (hbare : Bare forward)
    (hbehind : calm → (s.chains found.sessionId).jobs = []) :
    HostMoves calm s (s.endNow found.sessionId call forward) := by
  unfold Receiver.endNow
  rw [if_pos (isLive_iff.mpr ⟨found, hcall, hlive⟩)]
  simp only [Receiver.close, detach_call hcall hlive]
  by_cases hclosed : found.closed = true
  · rw [if_pos hclosed]
    have hdetached : HostMoves calm s (s.detach call) := .single (.detaches hcall hlive hclosed)
    have hshown : HostMoves calm s ((s.detach call).forwarded call (some forward)) :=
      hdetached.step (.aside (forwarded_aside _ call fun frame hframe => Option.some_inj.mp hframe ▸ hbare))
    have hstill : (((s.detach call).forwarded call (some forward)).chains found.sessionId).doing = some doing :=
      (doing_detach s call found.sessionId).trans hdoing
    refine hshown.step (.stops hstill fun hcloses' => ?_)
    rw [hcloses] at hcloses'
    cases hcloses'
  · rw [if_neg hclosed]
    exact .single (.closesAhead forward hdoing hcloses hcall hlive (Bool.not_eq_true _ ▸ hclosed) hbare hbehind)

theorem endBehind_other {place : Nat} {other : HostCall} (hplace : s.heap[place]? = some other) (hother : call ≠ place) :
    (s.endBehind call).heap[place]? = some other := by
  unfold Receiver.endBehind
  split
  · exact hplace
  · rename_i found hcall
    change (s.detach call).heap[place]? = some other
    by_cases hlive : found.ended = false
    · rw [detach_eq hcall hlive]
      exact Heap.modify_other hplace hother
    · rw [detach_ended hcall (Bool.not_eq_false _ ▸ hlive)]
      exact hplace

theorem endEach_moves {entries : List (JsString × Nat)} (hdistinct : (entries.map Prod.snd).Nodup)
    (hlive : ∀ entry ∈ entries, ∃ found, s.heap[entry.2]? = some found ∧ found.ended = false) :
    HostMoves calm s (entries.foldl (fun s entry => s.endBehind entry.2) s) := by
  induction entries generalizing s with
  | nil => exact .stay s
  | cons entry rest ih =>
      obtain ⟨found, hcall, hopen⟩ := hlive entry List.mem_cons_self
      rw [List.map_cons, List.nodup_cons] at hdistinct
      apply (endBehind_moves hcall hopen).trans
      refine ih hdistinct.2 fun other hother => ?_
      obtain ⟨found', hcall', hopen'⟩ := hlive other (List.mem_cons_of_mem _ hother)
      refine ⟨found', endBehind_other hcall' fun hsame => hdistinct.1 ?_, hopen'⟩
      exact hsame ▸ List.mem_map_of_mem hother

theorem connectionLost_moves (h : HostSound s) (hstorm : ¬calm) : HostMoves calm s s.connectionLost := by
  have hsession {entry : JsString × Nat} (hentry : entry ∈ s.bySession.entries) :
      ∃ found, s.heap[entry.2]? = some found ∧ found.ended = false ∧ found.sessionId = entry.1 :=
    h.tables.sessions entry.1 entry.2 ((OrderedMap.mem_entries_iff h.tables.sessionsDistinct entry.1 entry.2).mp hentry)
  have hdistinct : (s.bySession.entries.map Prod.snd).Nodup := by
    refine List.Nodup.map_on (fun entry hentry other hother hsame => ?_) (List.Nodup.of_map Prod.fst h.tables.sessionsDistinct)
    obtain ⟨found, hcall, -, hs⟩ := hsession hentry
    obtain ⟨found', hcall', -, hs'⟩ := hsession hother
    rw [hsame, hcall'] at hcall
    obtain rfl := Option.some_inj.mp hcall
    exact Prod.ext (hs.symm.trans hs') hsame
  have hended : HostMoves calm s (s.bySession.entries.foldl (fun s entry => s.endBehind entry.2) s) := by
    refine endEach_moves hdistinct fun entry hentry => ?_
    obtain ⟨found, hcall, hlive, -⟩ := hsession hentry
    exact ⟨found, hcall, hlive⟩
  exact (hended.step (.loses hstorm)).step (.aside (still rfl rfl rfl rfl rfl rfl rfl rfl rfl rfl rfl))

theorem closeEach_moves (entries : List (JsString × Nat)) (s : Receiver) (hstorm : ¬calm) :
    HostMoves calm s (entries.foldl (fun s entry => s.closeOutside entry.2) s) := by
  induction entries generalizing s with
  | nil => exact .stay s
  | cons entry rest ih => exact (HostMoves.single (.closesOutside entry.2 hstorm)).trans (ih (s.closeOutside entry.2))

theorem closeAll_moves (s : Receiver) (hstorm : ¬calm) : HostMoves calm s s.closeAll :=
  (closeEach_moves s.unclosed.entries s hstorm).step (.aside (still rfl rfl rfl rfl rfl rfl rfl rfl rfl rfl rfl))

theorem closedOutside_moves (h : HostSound s) (hcall : call ∈ s.outside) :
    HostMoves calm s { s.forget call with outside := s.outside.erase call } := by
  obtain ⟨found, hfound, hclosed⟩ := h.outside call hcall
  have hforgotten : HostMoves calm s (s.forget call) := .single (.forgets hfound hclosed)
  refine hforgotten.step (.aside ⟨rfl, rfl, rfl, rfl, rfl, rfl, rfl, rfl, fun other hother => ?_,
    ⟨[], (List.append_nil _).symm, fun _ hnone => by cases hnone⟩, ⟨[], (List.append_nil _).symm, fun _ hnone => by cases hnone⟩⟩)
  rw [forget_outside]
  exact List.mem_of_mem_erase hother

theorem fails_moves (h : HostSound s) (hdoing : (s.chains sessionId).doing = some (.retrying call))
    (hcall : s.heap[call]? = some found) (hlive : found.ended = false) (hbehind : calm → (s.chains sessionId).jobs = []) :
    HostMoves calm s (s.endNow sessionId call (errorFrame found.clientId INTERNAL_ERROR RETRY_NOT_SENT_MESSAGE)) := by
  obtain ⟨found', hcall', hsession⟩ : s.Owns sessionId call := h.fitted.doing sessionId _ hdoing
  rw [hcall] at hcall'
  obtain rfl := Option.some_inj.mp hcall'
  subst hsession
  exact endNow_moves hcall hlive hdoing rfl (errorFrame_bare _ _ _) hbehind

theorem rejects_moves (h : HostSound s) {forward : Option JsonRpcFrame}
    (hdoing : (s.chains sessionId).doing = some (.closing call forward)) :
    HostMoves calm s ((s.forget call).goesOn sessionId none) := by
  obtain ⟨⟨found, hcall, hsession, hclosed⟩, -⟩ := h.fitted.doing sessionId _ hdoing
  have hforgotten : HostMoves calm s (s.forget call) := .single (.forgets hcall hclosed)
  refine hforgotten.step (.stops (forget_chains s call ▸ hdoing) fun _ => ⟨call, found, ?_, hsession, hclosed⟩)
  exact (congrArg (·[call]?) (forget_heap s call)).trans hcall

theorem perform_moves (h : HostSound s) {capability : AuditCapability} {action : ReceiverAction}
    (hperform : s.perform capability action = some s') (hcalm : calm → Calm s action) : HostMoves calm s s' := by
  cases action with
  | sends frame sessionId signal =>
      simp only [Receiver.perform] at hperform
      split at hperform
      · rename_i hfresh
        obtain rfl := Option.some_inj.mp hperform
        exact outbound_moves h capability frame signal hfresh
      · cases hperform
  | arrives frame related =>
      obtain rfl := Option.some_inj.mp hperform
      exact enqueue_moves h frame related
  | delivers =>
      simp only [Receiver.perform] at hperform
      split at hperform
      · cases hperform
      · rename_i frame rest hwaiting
        obtain rfl := Option.some_inj.mp hperform
        have hshown : HostMoves calm s (s.deliver (.passed frame)) := .single (.aside (deliver_aside s trivial))
        exact hshown.step (.aside (still rfl rfl rfl rfl rfl rfl rfl rfl rfl rfl rfl))
  | starts sessionId =>
      simp only [Receiver.perform] at hperform
      split at hperform
      · rename_i job jobs hchain
        obtain rfl := Option.some_inj.mp hperform
        exact start_moves h hchain
      · cases hperform
  | settles sessionId =>
      obtain ⟨doing, hdoing, hsettle⟩ := Option.bind_eq_some_iff.mp hperform
      exact settle_moves h hdoing hsettle
  | timesOut sessionId =>
      obtain ⟨doing, hdoing, htimeOut⟩ := Option.bind_eq_some_iff.mp hperform
      exact timeOut_moves h hdoing htimeOut
  | expires sessionId =>
      simp only [Receiver.perform] at hperform
      split at hperform
      · rename_i work hdoing
        obtain rfl := Option.some_inj.mp hperform
        have hfits : (Doing.processing { work with expired := true }).Fits s sessionId :=
          h.fitted.doing sessionId (.processing work) hdoing
        refine .single (.goes hdoing rfl hfits nofun fun after hafter => ?_)
        obtain rfl := Doing.processing.inj hafter
        exact ⟨work, rfl, rfl, rfl⟩
      · cases hperform
  | fails sessionId =>
      simp only [Receiver.perform] at hperform
      split at hperform
      · rename_i call hdoing
        split at hperform
        · cases hperform
        · rename_i found hcall
          split at hperform
          · obtain rfl := Option.some_inj.mp hperform
            exact .single (.stops hdoing nofun)
          · rename_i hlive
            obtain rfl := Option.some_inj.mp hperform
            exact fails_moves h hdoing hcall (Bool.not_eq_true _ ▸ hlive) hcalm
      · cases hperform
  | rejects sessionId =>
      simp only [Receiver.perform] at hperform
      split at hperform
      · rename_i call forward hdoing
        obtain rfl := Option.some_inj.mp hperform
        exact rejects_moves h hdoing
      · cases hperform
  | decides decision answer =>
      simp only [Receiver.perform] at hperform
      split at hperform
      · rename_i event sessionId hdecision
        obtain rfl := Option.some_inj.mp hperform
        exact .single (.answers _ hdecision)
      · cases hperform
  | aborts call =>
      simp only [Receiver.perform] at hperform
      split at hperform
      · obtain rfl := Option.some_inj.mp hperform
        exact abandon_moves s call
      · cases hperform
  | forgets id =>
      simp only [Receiver.perform] at hperform
      split at hperform
      · obtain rfl := Option.some_inj.mp hperform
        exact .single (.aside (still rfl rfl rfl rfl rfl rfl rfl rfl rfl rfl rfl))
      · cases hperform
  | disconnects =>
      obtain rfl := Option.some_inj.mp hperform
      exact connectionLost_moves h hcalm
  | closesRegardless =>
      simp only [Receiver.perform] at hperform
      split at hperform
      · cases hperform
      · obtain rfl := Option.some_inj.mp hperform
        exact closeAll_moves s hcalm
  | closedOutside call =>
      simp only [Receiver.perform] at hperform
      split at hperform
      · rename_i hcall
        obtain rfl := Option.some_inj.mp hperform
        exact closedOutside_moves h hcall
      · cases hperform

theorem HostSound.empty : HostSound .empty := by
  have hnone {call : Nat} {found : HostCall} : Receiver.empty.heap[call]? ≠ some found := by
    intro hcall
    cases hcall
  refine { tables := ?_, fitted := ?_, outside := fun _ hcall => by cases hcall }
  · exact ⟨fun _ _ hcall => absurd hcall hnone, fun _ _ _ _ hcall => absurd hcall hnone, fun _ _ hget => (by cases hget),
      fun _ _ hget => (by cases hget), fun _ _ hcall => absurd hcall hnone, fun _ _ hcall => absurd hcall hnone,
      fun _ _ hget => (by cases hget), fun _ _ _ _ hcall => absurd hcall hnone, List.nodup_nil, List.nodup_nil, List.nodup_nil⟩
  · exact ⟨fun _ _ hjob => (by cases hjob), fun _ _ hdoing => (by cases hdoing),
      fun _ _ _ _ hcall => absurd hcall hnone⟩

-- What every move keeps holds in every state that a seam reaches.
theorem ReceiverRun.keeps {capability : AuditCapability} {I : Receiver → Prop} (hempty : I .empty)
    (hmove : ∀ s s', HostSound s → I s → HostMove False s s' → I s') {actions : List ReceiverAction}
    (hrun : ReceiverRun capability actions s) : HostSound s ∧ I s := by
  induction hrun with
  | start => exact ⟨.empty, hempty⟩
  | step hrun hperform ih =>
      have hmoves : HostMoves False _ _ := perform_moves ih.1 hperform False.elim
      exact hmoves.keeps (I := fun s => HostSound s ∧ I s)
        (fun s s' hkept hlast => ⟨hlast.sound hkept.1, hmove s s' hkept.1 hkept.2 hlast⟩) ih

end

end AuditableMcp.Mcp.HostSeam
