import AuditableMcp.Host.Books
import AuditableMcp.Host.Uniqueness

-- What closing a session flags, against what the chain holds of it.
namespace AuditableMcp

-- What a call recorded names as unresolved exactly the ids the chain holds an attempt of
-- the session for and no terminal outcome.
def FlagsUnresolved (before after : World) (sessionId : JsString) : Prop :=
  ∃ flags, after.host.anomalies = before.host.anomalies ++ flags ∧ ∀ id,
    (∃ anomaly ∈ flags, anomaly.kind = .unresolvedAttempt ∧ anomaly.id = id) ↔
      AttemptIn after.chain sessionId id ∧ ¬OutcomeIn after.chain sessionId id

-- A session's books, where no outcome of it was overlooked: both tables are the chain's.
theorem Books.unresolved_iff {sessionId : JsString} {session : Session} {records : List SealedRecord}
    (h : Books sessionId session records)
    (hknown : ∀ record ∈ records, inSession record sessionId → isAttempted record.event = false →
      (session.terminal.get (eventId record.event)).isSome = true) (id : JsString) :
    id ∈ (session.accepted.filter fun id => !session.terminal.has id) ↔
      AttemptIn records sessionId id ∧ ¬OutcomeIn records sessionId id := by
  rw [List.mem_filter, h.accepted]
  apply and_congr_right
  intro _
  constructor
  · rintro hopen ⟨record, hr, hin, hkind, rfl⟩
    have hsome := hknown record hr hin hkind
    simp [OrderedMap.has, hsome] at hopen
  · intro hnone
    cases hget : (session.terminal.get id).isSome with
    | false => simp [OrderedMap.has, hget]
    | true => exact absurd (h.terminal id hget) hnone

theorem closeSession_anomalies {host : AuditHost} {sessionId : JsString} {session : Session}
    (hopen : host.sessions.get sessionId = some session) :
    ∃ flags, (host.closeSession sessionId).anomalies = host.anomalies ++ flags ∧ ∀ id,
      (∃ anomaly ∈ flags, anomaly.kind = .unresolvedAttempt ∧ anomaly.id = id) ↔
        id ∈ session.accepted.filter fun id => !session.terminal.has id := by
  simp only [AuditHost.closeSession, hopen]
  rw [foldl_flag_anomalies]
  refine ⟨_, rfl, fun id => ?_⟩
  rw [← List.mem_insertionSort AuditHost.unitsOrder]
  constructor
  · rintro ⟨anomaly, ha, -, rfl⟩
    obtain ⟨other, ho, rfl⟩ := List.mem_map.mp ha
    exact ho
  · intro hid
    exact ⟨_, List.mem_map_of_mem hid, rfl, rfl⟩

-- One record behind the books changes what they should say, unless it is an outcome of
-- an operation they hold no attempt of.
theorem unresolved_behind_iff {records : List SealedRecord} {record : SealedRecord} {sessionId : JsString}
    (hids : (records ++ [record]).Pairwise AttemptIdsDiffer)
    (hafter : ∀ other ∈ records, inSession record sessionId → ¬AfterTerminal other record) :
    (∀ id, (AttemptIn records sessionId id ∧ ¬OutcomeIn records sessionId id) ↔
      (AttemptIn (records ++ [record]) sessionId id ∧ ¬OutcomeIn (records ++ [record]) sessionId id)) ↔
    (inSession record sessionId →
      isAttempted record.event = false ∧ ¬AttemptIn records sessionId (eventId record.event)) := by
  simp only [attemptIn_append_singleton, outcomeIn_append_singleton]
  -- Nothing of its operation was concluded before the record.
  have hopen (hin : inSession record sessionId) : ¬OutcomeIn records sessionId (eventId record.event) := by
    rintro ⟨other, ho, hother, hkind, hid⟩
    exact hafter other ho hin ⟨⟨sessionId, hother, hin⟩, hid, hkind⟩
  constructor
  · intro h hin
    have hown := h (eventId record.event)
    cases hkind : isAttempted record.event with
    | true =>
        have hfresh : ¬AttemptIn records sessionId (eventId record.event) := by
          rintro ⟨other, ho, -, hattempted, hid⟩
          exact (List.pairwise_append.mp hids).2.2 other ho record (by simp) hattempted hkind hid
        have hboth := hown.mpr ⟨Or.inr ⟨hin, hkind, rfl⟩, by simp [hopen hin, hkind]⟩
        exact absurd hboth.1 hfresh
    | false =>
        refine ⟨rfl, fun hattempt => ?_⟩
        exact (hown.mp ⟨hattempt, hopen hin⟩).2 (Or.inr ⟨hin, hkind, rfl⟩)
  · intro h id
    by_cases hown : inSession record sessionId ∧ eventId record.event = id
    · obtain ⟨hin, rfl⟩ := hown
      obtain ⟨hkind, hnone⟩ := h hin
      simp [hnone, hkind]
    · have hnot (kind : Bool) :
          ¬(inSession record sessionId ∧ isAttempted record.event = kind ∧ eventId record.event = id) :=
        fun ⟨hin, _, hid⟩ => hown ⟨hin, hid⟩
      simp only [hnot, or_false]

-- A record that was stored behind the host's back, and not taken over yet.
def World.behind (w : World) : List SealedRecord := w.chain.drop w.host.ledger.count

-- Closing a session flags its unresolved attempts and nothing else, in any run in which
-- no outcome of the session that landed unseen is taken over while it is open, exactly
-- where no record that concerns the flags is behind the host's back as it closes.
theorem closeSession_flags_iff (P : Primitives) (hjcs : JcsFaithful P) (config : HostConfig) (calls : List Call)
    (sessionId : JsString)
    (hadopts : ∀ before call after, calls = before ++ call :: after → ∀ record,
      call.adopts (run P (World.new config) before) = some record → inSession record sessionId →
      (run P (World.new config) before).host.sessions.has sessionId = true → isAttempted record.event = true)
    (hopen : (run P (World.new config) calls).host.sessions.has sessionId = true) :
    FlagsUnresolved (run P (World.new config) calls)
        (perform P (run P (World.new config) calls) (.closeSession sessionId)).1 sessionId ↔
      ∀ record ∈ (run P (World.new config) calls).behind, inSession record sessionId →
        isAttempted record.event = false ∧
          ¬AttemptIn (run P (World.new config) calls).committed sessionId (eventId record.event) := by
  have hbooked := (books_kept P).run hjcs config calls
  obtain ⟨committed, pending, hsound⟩ := run_sound (sound_new P config) calls
  obtain ⟨hcovered, hpairwise⟩ := run_covered ((terminals_tracked P).within sessionId) trivial calls
    (fun _ _ _ _ _ => trivial) (by
      intro before call after hsplit record sid hrecord hin hopen session hown hkind
      obtain rfl := inSession_unique hin hown
      rw [hadopts before call after hsplit record hrecord hin hopen] at hkind
      cases hkind)
  revert hbooked hcovered hpairwise hsound hopen
  generalize run P (World.new config) calls = w
  intro hopen hbooked hsound hcovered hpairwise
  obtain ⟨session, hsession⟩ := (OrderedMap.has_eq_true _ _).mp hopen
  have hcommitted : w.committed = committed := hsound.committed_eq
  have hbehind : w.behind = pending := by
    rw [World.behind, hsound.count, hsound.chain, List.drop_left]
  have hchain : (perform P w (.closeSession sessionId)).1.chain = committed ++ pending := by
    have hnoted := closeSession_noted w.host sessionId session hsession
    rw [← hsound.chain]
    simp [perform, World.chain, hnoted.config, hnoted.ledger]
  have hknown := (hbooked sessionId session hsession).unresolved_iff
    fun record hr hin => hcovered sessionId session hsession record hr hin hin
  obtain ⟨flags, hflags, hids⟩ := closeSession_anomalies hsession
  rw [hcommitted] at hknown ⊢
  rw [hbehind]
  have hexact : FlagsUnresolved w (perform P w (.closeSession sessionId)).1 sessionId ↔ ∀ id,
      (AttemptIn committed sessionId id ∧ ¬OutcomeIn committed sessionId id) ↔
        (AttemptIn (committed ++ pending) sessionId id ∧ ¬OutcomeIn (committed ++ pending) sessionId id) := by
    unfold FlagsUnresolved
    rw [hchain]
    constructor
    · rintro ⟨others, hothers, hexactly⟩ id
      have hsame : flags = others := by
        have hboth : w.host.anomalies ++ flags = w.host.anomalies ++ others := hflags.symm.trans hothers
        exact List.append_cancel_left hboth
      rw [← hknown, ← hids, hsame]
      exact hexactly id
    · intro h
      refine ⟨flags, hflags, fun id => ?_⟩
      rw [hids, hknown]
      exact h id
  rw [hexact]
  rcases hsound.doubt with rfl | ⟨record, rfl, -⟩
  · simp
  · have hchained : w.chain = committed ++ [record] := hsound.chain
    have hsoundChain := hsound.soundChain
    rw [hchained] at hsoundChain hpairwise
    rw [unresolved_behind_iff hsoundChain.attemptIds fun other ho hin =>
      (List.pairwise_append.mp hpairwise).2.2 other ho record (by simp) hin]
    simp

section

open Reference

-- Two attempts, one of them concluded, and a tail nobody has to read again.
def closedRun : List Call :=
  let answers := answering .repositoryError .stores
  [.openSession SESSION_A,
   .attempt answers (toolEvent SESSION_A EVENT_1 Outcome.ATTEMPTED []) none false,
   .attempt answers (toolEvent SESSION_A EVENT_2 Outcome.ATTEMPTED []) none false,
   .outcome answers (toolEvent SESSION_A EVENT_1 Outcome.SUCCESS []) none]

theorem closedRun_flags :
    FlagsUnresolved (run primitives (World.new (tenant .L1)) closedRun)
        (perform primitives (run primitives (World.new (tenant .L1)) closedRun) (.closeSession SESSION_A)).1 SESSION_A ↔
      ∀ record ∈ (run primitives (World.new (tenant .L1)) closedRun).behind, inSession record SESSION_A →
        isAttempted record.event = false ∧ ¬AttemptIn (run primitives (World.new (tenant .L1)) closedRun).committed
          SESSION_A (eventId record.event) :=
  closeSession_flags_iff primitives primitives_faithful (tenant .L1) closedRun SESSION_A
    (by
      intro before call after hsplit record hrecord
      have hcall : call ∈ closedRun := by rw [hsplit]; simp
      simp only [closedRun, List.mem_cons, List.not_mem_nil, or_false] at hcall
      rcases hcall with rfl | rfl | rfl | rfl <;> simp [Call.adopts, answering] at hrecord)
    (by decide +kernel)

-- A success that landed although its append threw. Its repeat takes it over and is
-- answered from it.
def outcomeTakenOver : List Call :=
  let event := fun outcome => toolEvent SESSION_A EVENT_1 outcome []
  [.openSession SESSION_A,
   .attempt (answering .reads .stores) (event Outcome.ATTEMPTED) none false,
   .outcome (answering .reads .storesAndThrows) (event Outcome.SUCCESS) none,
   .outcome (answering .reads .stores) (event Outcome.SUCCESS) none]

-- What closing a session shows: whether it was open, what was flagged before and by
-- closing it, and what the chain holds.
structure ClosingView where
  isOpen : Bool
  before : List JsString
  after : List (Tier1Code × JsString)
  chain : List (Option JsString × JsString × Bool)
deriving DecidableEq

def World.closingView (w : World) (sessionId : JsString) : ClosingView :=
  let closed := (perform primitives w (.closeSession sessionId)).1
  ⟨w.host.sessions.has sessionId, w.host.anomalies.map IntegrityAnomaly.id,
    closed.host.anomalies.map fun anomaly => (anomaly.kind, anomaly.id), closed.chain.map sealedOperation⟩

theorem outcomeTakenOver_flagged : ¬∀ (P : Primitives), JcsFaithful P → ∀ (config : HostConfig) (calls : List Call)
    (sessionId : JsString), (run P (World.new config) calls).host.sessions.has sessionId = true →
    FlagsUnresolved (run P (World.new config) calls)
      (perform P (run P (World.new config) calls) (.closeSession sessionId)).1 sessionId := by
  intro h
  have hclosing : (run primitives (World.new (tenant .L1)) outcomeTakenOver).closingView SESSION_A =
      ⟨true, [], [(.unresolvedAttempt, EVENT_1)], [true, false].map fun attempted =>
        (some SESSION_A, EVENT_1, attempted)⟩ := by decide +kernel
  obtain ⟨hopen, hbefore, hafter, hchain⟩ := ClosingView.mk.inj hclosing
  obtain ⟨flags, hflags, hids⟩ := h primitives primitives_faithful (tenant .L1) outcomeTakenOver SESSION_A hopen
  rw [hflags, List.map_eq_nil_iff.mp hbefore, List.nil_append] at hafter
  obtain ⟨anomaly, rest, rfl, hanomaly, -⟩ := List.map_eq_cons_iff.mp hafter
  obtain ⟨hkind, hid⟩ := Prod.mk.inj hanomaly
  obtain ⟨-, hnone⟩ := (hids EVENT_1).mp ⟨anomaly, by simp, hkind, hid⟩
  obtain ⟨attempt, others, hsplit, -, hothers⟩ := List.map_eq_cons_iff.mp hchain
  obtain ⟨success, last, rfl, hsuccess, -⟩ := List.map_eq_cons_iff.mp hothers
  simp only [sealedOperation, Prod.mk.injEq] at hsuccess
  refine hnone ⟨success, ?_, textOf_eq_some.mp hsuccess.1, hsuccess.2.2, hsuccess.2.1⟩
  rw [hsplit]
  simp

end

end AuditableMcp
