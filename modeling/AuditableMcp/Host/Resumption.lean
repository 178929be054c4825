import AuditableMcp.Host.Restored
import AuditableMcp.Host.Steady
import AuditableMcp.Host.Unresolved

-- A host restored from its records and its trackers goes on as the one that never stopped.
namespace AuditableMcp

-- The sessions open in a host, each with its tracker.
def AuditHost.openSessions (host : AuditHost) : List OpenSession :=
  host.sessions.keys.map fun sessionId => ⟨sessionId, host.signerTracker sessionId⟩

-- A restored host is seen by the ids and kinds of what it flags. What it never learnt
-- again is why an id was refused and which ids it issued.
def idsAndKinds : Likeness where
  Seen := JsString × Tier1Code
  see := fun anomaly => some (anomaly.id, anomaly.kind)
  bounds := True
  memory := False
  gaps := Or.inl trivial
  details := Or.inr fun _ _ _ _ => rfl

section

variable {P : Primitives} {config : HostConfig} {records : List SealedRecord} {openSessions : List OpenSession}
  {host : AuditHost}

-- What the taking over of open sessions leaves in the sessions of a host that had none.
structure Reinstated (P : Primitives) (records : List SealedRecord) (openSessions : List OpenSession)
    (host : AuditHost) : Prop where
  given : ∀ entry ∈ openSessions, ∃ base, restoredSession P entry.sessionId records = .ok base ∧
    host.sessions.get entry.sessionId = some (base.withSigners entry.signers)
  none : ∀ sessionId, (∀ entry ∈ openSessions, entry.sessionId ≠ sessionId) → host.sessions.get sessionId = none

theorem resumeSession_reinstated {done : List OpenSession} {entry : OpenSession} {after : AuditHost}
    (h : Reinstated P records done host)
    (hsame : ∀ other ∈ done, entry.sessionId = other.sessionId → entry.signers = other.signers)
    (hstep : host.resumeSession P records entry = .ok after) : Reinstated P records (done ++ [entry]) after := by
  unfold AuditHost.resumeSession at hstep
  obtain ⟨base, hbase, hstep⟩ := bind_ok hstep
  obtain rfl := pure_ok hstep
  refine ⟨fun other ho => ?_, fun sessionId hnone => ?_⟩
  · simp only [OrderedMap.get_set]
    by_cases hid : entry.sessionId = other.sessionId
    · rw [if_pos hid]
      refine ⟨base, by rw [← hid]; exact hbase, ?_⟩
      rcases List.mem_append.mp ho with hm | hm
      · rw [hsame other hm hid]
      · rw [List.mem_singleton.mp hm]
    · rw [if_neg hid]
      rcases List.mem_append.mp ho with hm | hm
      · exact h.given other hm
      · exact absurd (congrArg OpenSession.sessionId (List.mem_singleton.mp hm)).symm hid
  · have hne : entry.sessionId ≠ sessionId := hnone entry (by simp)
    rw [OrderedMap.get_set_of_ne _ _ hne]
    exact h.none sessionId fun other ho => hnone other (by simp [ho])

theorem resume_reinstated
    (hsame : ∀ entry ∈ openSessions, ∀ other ∈ openSessions,
      entry.sessionId = other.sessionId → entry.signers = other.signers)
    (h : AuditHost.resume P config records openSessions = .ok host) : Reinstated P records openSessions host := by
  unfold AuditHost.resume at h
  obtain ⟨remembered, hremembered, h⟩ := bind_ok h
  obtain ⟨reopened, hreopened, h⟩ := bind_ok h
  have hempty : remembered.sessions = .empty :=
    foldlM_ok_invariant (fun _ host => host.sessions = .empty) records
      (fun _ _ _ _ _ _ hbefore hstep => (resumeRecord_sessions hstep).trans hbefore) rfl hremembered
  have hreinstated : Reinstated P records openSessions reopened := by
    refine foldlM_ok_invariant (fun done host => Reinstated P records done host) openSessions ?_ ?_ hreopened
    · intro done entry rest before after hsplit hbefore hstep
      refine resumeSession_reinstated hbefore (fun other ho => ?_) hstep
      exact hsame entry (by rw [hsplit]; simp) other (by rw [hsplit]; simp [ho])
    · exact ⟨by simp, fun sessionId _ => by rw [hempty, OrderedMap.get_empty]⟩
  obtain ⟨attempts, -, h⟩ := bind_ok h
  have hsessions : host.sessions = reopened.sessions := by
    rw [← pure_ok h]
    exact foldl_flag_sessions _ _ _ _
  exact ⟨by rw [hsessions]; exact hreinstated.given, by rw [hsessions]; exact hreinstated.none⟩

end

-- The calls of a host's life between two restarts, once its sessions are open.
def Call.Served : Call → Prop
  | .attempt .. => True
  | .outcome .. => True
  | .closeSession _ => True
  | .setPersistenceAvailable _ => True
  | .openSession _ => False
  | .resume .. => False

section

variable {P : Primitives} {L : Likeness} {base : Base L} {w v : World}

theorem perform_served_abreast (h : Abreast L base True w v) {call : Call} (hserved : call.Served) :
    Together (Abreast L base True) (perform P w call) (perform P v call) := by
  cases call with
  | attempt answers event expected expired =>
      exact replying_together (handleAttempt_abreast h answers event expected expired) Reply.attempt
  | outcome answers event expected => exact replying_together (recordOutcome_abreast h answers event expected) Reply.outcome
  | closeSession sessionId => exact perform_closeSession_abreast h sessionId
  | setPersistenceAvailable available => exact perform_setPersistenceAvailable_abreast h available
  | openSession sessionId => exact hserved.elim
  | resume capability options openSessions => exact hserved.elim

theorem run_served_abreast (h : Abreast L base True w v) (more : List Call) (hserved : ∀ call ∈ more, call.Served) :
    Abreast L base True (run P w more) (run P v more) ∧ replies P w more = replies P v more := by
  induction more generalizing w v with
  | nil => exact ⟨h, rfl⟩
  | cons call rest ih =>
      obtain ⟨hstates, hresults⟩ := perform_served_abreast (P := P) h (hserved call (by simp))
      obtain ⟨hafter, hreplies⟩ := ih hstates fun other ho => hserved other (by simp [ho])
      refine ⟨hafter, ?_⟩
      simp only [replies, hresults, hreplies]

end

instance : Std.Total numberOrder :=
  ⟨fun a b => by
    cases a <;> cases b <;> simp [numberOrder, JsNum.lt]
    exact le_total _ _⟩

instance : IsTrans JsNum numberOrder :=
  ⟨fun a b c hab hbc => by
    cases a <;> cases b <;> cases c <;> simp_all [numberOrder, JsNum.lt]
    exact le_trans hab hbc⟩

instance : Std.Antisymm numberOrder :=
  ⟨fun a b hab hba => by
    cases a <;> cases b <;> simp_all [numberOrder, JsNum.lt]
    exact le_antisymm hab hba⟩

-- Objects are the same that have the same members, in whatever order.
structure SignerTracker.Same (first second : SignerTracker) : Prop where
  decided : ∀ keyId, OrderedMap.lookup first.decided keyId = OrderedMap.lookup second.decided keyId
  received : ∀ keyId, OrderedMap.lookup first.received keyId = OrderedMap.lookup second.received keyId

-- The order in which a session came to its decisions does not show in its tracker.
theorem SameBook.tracker {first second : Session} (h : SameBook True first second) :
    first.signerTracker.Same second.signerTracker := by
  refine ⟨fun keyId => ?_, fun keyId => h.received trivial keyId⟩
  have hlookup (session : Session) : OrderedMap.lookup session.signerTracker.decided keyId =
      (session.decided.get keyId).map fun values => values.insertionSort numberOrder := OrderedMap.lookup_map _ _ _
  have hrel := h.decided keyId
  rw [hlookup, hlookup]
  revert hrel
  generalize first.decided.get keyId = values
  generalize second.decided.get keyId = others
  intro hrel
  cases hrel with
  | none => rfl
  | @some a b hperm =>
      have hsorted := (List.perm_insertionSort numberOrder a).trans
        (hperm.trans (List.perm_insertionSort numberOrder b).symm)
      rw [Option.map_some, Option.map_some, hsorted.eq_of_pairwise' (List.pairwise_insertionSort _ a)
        (List.pairwise_insertionSort _ b)]

theorem Alike.trackers {base : Base idsAndKinds} {settled : Prop} {first second : AuditHost}
    (h : Alike idsAndKinds base settled first second) (sessionId : JsString) :
    Option.Rel SignerTracker.Same (first.signerTracker sessionId) (second.signerTracker sessionId) := by
  unfold AuditHost.signerTracker
  rcases h.session_cases sessionId with ⟨hf, hs⟩ | ⟨s, t, hf, hs, hbook⟩
  · rw [hf, hs]
    exact .none
  · rw [hf, hs]
    exact .some (SameBook.tracker hbook)

section

variable {P : Primitives} {config : HostConfig} {calls : List Call}

-- At Level 2, and where nothing ever landed unseen, an open session knows all of its records.
theorem run_complete (hjcs : JcsFaithful P) (happends : ∀ call ∈ calls, call.StoresNothing)
    (hlevel : (run P (World.new config) calls).host.config.capability.level = .L2) {sessionId : JsString}
    {session : Session} (hopen : (run P (World.new config) calls).host.sessions.get sessionId = some session) :
    Complete P sessionId session (run P (World.new config) calls).committed := by
  have hbefore (before : List Call) (call : Call) (after : List Call) (hsplit : calls = before ++ call :: after) :
      call.adopts (run P (World.new config) before) = none :=
    run_adopts_none config (fun other ho => happends other (by rw [hsplit]; simp [ho])) call
  have hterminals : Covered (fun session record => isAttempted record.event = false →
      (session.terminal.get (eventId record.event)).isSome = true) (run P (World.new config) calls) := by
    refine (run_covered (terminals_tracked P) trivial calls (fun _ _ _ _ _ => trivial) ?_).1
    intro before call after hsplit record sid hrecord
    rw [hbefore before call after hsplit] at hrecord
    cases hrecord
  have hnumbers := run_covered_when (numbers_tracked P) config calls (by
    intro before call after hsplit record sid hrecord
    rw [hbefore before call after hsplit] at hrecord
    cases hrecord) hlevel
  refine
    { proper := (run_proper P config calls).sessions sessionId session hopen
      books := (books_kept P).run hjcs config calls sessionId session hopen
      ended := (ended_kept P).run hjcs config calls sessionId session hopen
      terminal := fun record hr hin hkind => hterminals sessionId session hopen record hr hin hkind
      decided := ?_
      reached := ?_ }
  · rintro keyId signerSeq ⟨record, hr, hin, hnumber⟩
    exact hnumbers sessionId session hopen record hr hin keyId signerSeq hnumber
  · rintro keyId signerSeq ⟨record, hr, hin, hnumber⟩
    exact run_heard config calls hlevel sessionId session hopen record (List.mem_of_mem_take hr) hin keyId signerSeq
      hnumber

theorem run_once (happends : ∀ call ∈ calls, call.StoresNothing) :
    (run P (World.new config) calls).chain.Pairwise fun first second => ¬AfterTerminal first second := by
  refine run_tracked (terminals_tracked P) trivial calls (fun _ _ _ _ _ => trivial) ?_
  intro before call after hsplit record sid hrecord
  rw [run_adopts_none config (fun other ho => happends other (by rw [hsplit]; simp [ho])) call] at hrecord
  cases hrecord

end

-- What two hosts over one repository do with the same calls.
structure SameService (P : Primitives) (w v : World) (more : List Call) : Prop where
  replies : replies P w more = replies P v more
  trackers : ∀ sessionId, Option.Rel SignerTracker.Same ((run P w more).host.signerTracker sessionId)
    ((run P v more).host.signerTracker sessionId)
  stored : (run P w more).stored = (run P v more).stored
  records : ∃ since, (run P w more).host.ledger.records = w.host.ledger.records ++ since ∧
    (run P v more).host.ledger.records = v.host.ledger.records ++ since
  anomalies : ∃ since : List (JsString × Tier1Code),
    (run P w more).host.anomalies.map (fun anomaly => (anomaly.id, anomaly.kind)) =
        w.host.anomalies.map (fun anomaly => (anomaly.id, anomaly.kind)) ++ since ∧
      (run P v more).host.anomalies.map (fun anomaly => (anomaly.id, anomaly.kind)) =
        v.host.anomalies.map (fun anomaly => (anomaly.id, anomaly.kind)) ++ since

-- What the two hosts had before they are compared.
def Base.of (w v : World) : Base idsAndKinds where
  firstRecords := w.host.ledger.records
  secondRecords := v.host.ledger.records
  firstSeen := w.host.anomalies.filterMap idsAndKinds.see
  secondSeen := v.host.anomalies.filterMap idsAndKinds.see

theorem sameService_of_abreast {P : Primitives} {w v : World} (h : Abreast idsAndKinds (.of w v) True w v)
    (more : List Call) (hserved : ∀ call ∈ more, call.Served) : SameService P w v more := by
  obtain ⟨hafter, hreplies⟩ := run_served_abreast (P := P) h more hserved
  refine ⟨hreplies, hafter.hosts.trackers, hafter.stored, hafter.hosts.records, ?_⟩
  have hsee (anomalies : List IntegrityAnomaly) : anomalies.filterMap idsAndKinds.see =
      anomalies.map fun anomaly => (anomaly.id, anomaly.kind) :=
    congrFun (List.filterMap_eq_map (f := fun anomaly : IntegrityAnomaly => (anomaly.id, anomaly.kind))) anomalies
  obtain ⟨since, hf, hs⟩ := hafter.hosts.anomalies
  simp only [Base.of, hsee] at hf hs
  exact ⟨since, hf, hs⟩

theorem mem_openSessions {host : AuditHost} (h : host.Proper) (entry : OpenSession) :
    entry ∈ host.openSessions ↔ ∃ session, host.sessions.get entry.sessionId = some session ∧
      entry.signers = some session.signerTracker := by
  unfold AuditHost.openSessions AuditHost.signerTracker
  rw [List.mem_map]
  constructor
  · rintro ⟨sessionId, hkey, rfl⟩
    obtain ⟨session, hsession⟩ := Option.isSome_iff_exists.mp ((OrderedMap.mem_keys_iff h.distinct sessionId).mp hkey)
    exact ⟨session, hsession, by rw [hsession]; rfl⟩
  · rintro ⟨session, hsession, hsigners⟩
    refine ⟨entry.sessionId, (OrderedMap.mem_keys_iff h.distinct _).mpr (by rw [hsession]; rfl), ?_⟩
    rw [hsession, Option.map_some, ← hsigners]

-- A host restored from the repository, the open sessions and their trackers behaves as
-- the one that never stopped, in every run in which a failed append stored nothing.
theorem restored_behaves_alike (P : Primitives) (hjcs : JcsFaithful P) (config : HostConfig) (calls : List Call)
    (happends : ∀ call ∈ calls, call.StoresNothing)
    (hcertain : (run P (World.new config) calls).host.tailUncertain = false)
    (hlevel : (run P (World.new config) calls).host.config.capability.level = .L2)
    (hrepo : (run P (World.new config) calls).host.config.repository = true) :
    ∃ restored, AuditHost.resume P (run P (World.new config) calls).host.config
        (run P (World.new config) calls).stored (run P (World.new config) calls).host.openSessions = .ok restored ∧
      ∀ more, (∀ call ∈ more, call.Served) →
        SameService P (run P (World.new config) calls)
          ⟨{ restored with persistenceAvailable := (run P (World.new config) calls).host.persistenceAvailable },
            (run P (World.new config) calls).stored⟩ more := by
  obtain ⟨committed, pending, hsound⟩ := run_sound (sound_new P config) calls
  have hproper := run_proper P config calls
  have hcomplete (sessionId : JsString) (session : Session)
      (hopen : (run P (World.new config) calls).host.sessions.get sessionId = some session) :=
    run_complete hjcs happends hlevel hopen
  have honce : (run P (World.new config) calls).chain.Pairwise fun first second => ¬AfterTerminal first second :=
    run_once happends
  have hpending := hsound.pending_eq_nil (run_inStep config calls happends)
  revert hcertain hlevel hrepo hsound hproper hcomplete honce
  generalize run P (World.new config) calls = w
  intro hcertain hlevel hrepo hsound hproper hcomplete honce
  subst hpending
  have hstored : w.stored = committed := by
    rw [← Sound.chain_of_repository hrepo, hsound.chain, List.append_nil]
  have hadm := hsound.stored_admissible
  rw [Sound.chain_of_repository hrepo] at honce
  rw [hsound.committed_eq, ← hstored] at hcomplete
  have hsoundChain := hsound.soundChain
  rw [Sound.chain_of_repository hrepo] at hsoundChain
  obtain ⟨restored, hrestored, -⟩ := resume_flags P w.host.config w.host.openSessions hsoundChain.linked
    fun record hr _ _ => (hadm record hr).current.id
  refine ⟨restored, hrestored, fun more hserved => sameService_of_abreast ?_ more hserved⟩
  obtain ⟨-, hresumed⟩ := hsound.resumed hrepo hrestored
  have hreinstated := resume_reinstated (fun entry he other ho hid => by
    obtain ⟨session, hsession, hsigners⟩ := (mem_openSessions hproper entry).mp he
    obtain ⟨session', hsession', hsigners'⟩ := (mem_openSessions hproper other).mp ho
    rw [hid, hsession'] at hsession
    rw [hsigners, hsigners', Option.some.inj hsession]) hrestored
  have hsessions (sessionId : JsString) :
      Option.Rel (SameBook True) (w.host.sessions.get sessionId) (restored.sessions.get sessionId) := by
    cases hopen : w.host.sessions.get sessionId with
    | none =>
        have habsent := hreinstated.none sessionId fun entry he hid => by
          obtain ⟨session, hsession, -⟩ := (mem_openSessions hproper entry).mp he
          rw [hid, hopen] at hsession
          cases hsession
        rw [habsent]
        exact .none
    | some session =>
        obtain ⟨base, hbase, hget⟩ := hreinstated.given ⟨sessionId, some session.signerTracker⟩
          ((mem_openSessions hproper _).mpr ⟨session, hopen, rfl⟩)
        rw [hget]
        exact .some (restored_sameBook (hcomplete sessionId session hopen) hadm honce hbase)
  refine ⟨?_, rfl⟩
  exact
    { config := hresumed.config.symm
      persistenceAvailable := rfl
      count := by rw [hresumed.ledger, resumeFrom_count hsoundChain.linked, hsound.count, hstored]
      tailHash := by rw [hresumed.ledger, resumeFrom_tailHash, hsound.tailHash, hstored]
      records := ⟨[], by simp [Base.of], by simp [Base.of]⟩
      issued := False.elim
      tailUncertain := fun _ => hcertain.trans hresumed.tailUncertain.symm
      sealedAttempts := by
        intro id
        apply Option.ext
        intro record
        rw [hsound.tables.attempts, hresumed.tables.attempts, hstored]
      sealedDigests := by
        intro digest
        rw [hsound.tables.digests, hresumed.tables.digests, hstored]
      rejectedIds := False.elim
      distinct := hproper.distinct
      sessions := hsessions
      anomalies := ⟨[], by simp [Base.of], by simp [Base.of]⟩ }

-- A signed attempt that was sealed, and another that was refused under its number.
def interruptedRun : List Call :=
  let signed := Reference.signedUnder "tool-1" 0 "c2lnbmVk"
  [.openSession Reference.SESSION_A,
   .attempt (Reference.answering .reads .stores)
     (Reference.toolEvent Reference.SESSION_A Reference.EVENT_1 Outcome.ATTEMPTED signed) none false,
   .attempt (Reference.answering .reads .throws)
     (Reference.toolEvent Reference.SESSION_A Reference.EVENT_2 Outcome.ATTEMPTED signed) none false]

theorem interruptedRun_goes_on :
    ∃ restored, AuditHost.resume Reference.primitives
        (run Reference.primitives (World.new (Reference.tenant .L2)) interruptedRun).host.config
        (run Reference.primitives (World.new (Reference.tenant .L2)) interruptedRun).stored
        (run Reference.primitives (World.new (Reference.tenant .L2)) interruptedRun).host.openSessions = .ok restored ∧
      ∀ more, (∀ call ∈ more, call.Served) →
        SameService Reference.primitives (run Reference.primitives (World.new (Reference.tenant .L2)) interruptedRun)
          ⟨{ restored with persistenceAvailable :=
              (run Reference.primitives (World.new (Reference.tenant .L2)) interruptedRun).host.persistenceAvailable },
            (run Reference.primitives (World.new (Reference.tenant .L2)) interruptedRun).stored⟩ more :=
  restored_behaves_alike Reference.primitives Reference.primitives_faithful (Reference.tenant .L2) interruptedRun
    (by simp [interruptedRun, Call.StoresNothing, Reference.answering]) (by decide +kernel) (by decide +kernel)
    (by decide +kernel)

end AuditableMcp
