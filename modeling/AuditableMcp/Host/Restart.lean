import AuditableMcp.Host.Invariant
import AuditableMcp.Library.Fold

namespace AuditableMcp

def inSession (record : SealedRecord) (sessionId : JsString) : Prop :=
  record.event.get Fields.SESSION_ID = some (.str sessionId)

theorem inSession_unique {record : SealedRecord} {first second : JsString} (hf : inSession record first)
    (hs : inSession record second) : first = second := by
  rw [inSession, show record.event.get Fields.SESSION_ID = some (.str second) from hs] at hf
  simpa using hf.symm

theorem hasDecided_restoredNumber (event : Json) (session : Session) (keyId : JsString) (signerSeq : JsNum) :
    (restoredNumber event session).hasDecided keyId signerSeq ↔
      session.hasDecided keyId signerSeq ∨ numberOf event = some (keyId, signerSeq) := by
  unfold restoredNumber numberOf
  split
  · rename_i key number hkey hnumber
    by_cases hk : key = keyId
    · subst hk
      simp [Session.hasDecided, hkey, hnumber, eq_comm]
    · simp [Session.hasDecided, hkey, hnumber, OrderedMap.get_set, hk]
  · simp

theorem hasReached_restoredNumber (event : Json) {session : Session} {keyId : JsString} {signerSeq : JsNum}
    (h : session.hasReached keyId signerSeq ∨ numberOf event = some (keyId, signerSeq)) :
    (restoredNumber event session).hasReached keyId signerSeq := by
  unfold restoredNumber
  split
  · rename_i key number hkey hnumber
    by_cases hk : key = keyId
    · subst hk
      refine ⟨((session.received.get key).getD number).max number, by simp, ?_⟩
      rcases h with ⟨highest, hget, hlt⟩ | hn
      · rw [hget]
        exact JsNum.not_lt_max hlt
      · obtain rfl : number = signerSeq := by simpa [numberOf, hkey, hnumber] using hn
        exact JsNum.not_max_lt _ _
    · rcases h with ⟨highest, hget, hlt⟩ | hn
      · exact ⟨highest, by simp [OrderedMap.get_set, hk, hget], hlt⟩
      · exact absurd (by simpa [numberOf, hkey, hnumber] using hn : key = keyId ∧ number = signerSeq).1 hk
  · rcases h with h | hn
    · exact h
    · simp [numberOf] at hn

theorem restoredNumber_fields (event : Json) (session : Session) :
    (restoredNumber event session).accepted = session.accepted ∧
      (restoredNumber event session).terminal = session.terminal := by
  unfold restoredNumber
  split <;> exact ⟨rfl, rfl⟩

-- A session rebuilt from some records: it accepted their attempts and nothing else, and
-- it misses none of their outcomes and numbers.
structure RestoredFrom (sessionId : JsString) (session : Session) (done : List SealedRecord) : Prop where
  accepted : ∀ id ∈ session.accepted, ∃ record ∈ done, inSession record sessionId ∧
    isAttempted record.event = true ∧ eventId record.event = id
  terminal : ∀ record ∈ done, Admissible record.event → inSession record sessionId →
    isAttempted record.event = false → (session.terminal.get (eventId record.event)).isSome = true
  decided : ∀ record ∈ done, Admissible record.event → inSession record sessionId →
    ∀ keyId signerSeq, numberOf record.event = some (keyId, signerSeq) → session.hasDecided keyId signerSeq
  reached : ∀ record ∈ done, Admissible record.event → inSession record sessionId →
    ∀ keyId signerSeq, numberOf record.event = some (keyId, signerSeq) → session.hasReached keyId signerSeq

section

variable {P : Primitives} {sessionId : JsString}

theorem restoredRecord_skipped {session after : Session} {record : SealedRecord}
    (h : ¬(inSession record sessionId ∧ Json.isText (record.event.get Fields.SPEC_VERSION) SPEC_VERSION = true))
    (hstep : restoredRecord P sessionId session record = .ok after) : after = session := by
  have hskip : (!Json.isText (record.event.get Fields.SESSION_ID) sessionId ||
      !Json.isText (record.event.get Fields.SPEC_VERSION) SPEC_VERSION) = true := by
    rw [inSession, ← Json.isText_eq_true] at h
    cases h1 : Json.isText (record.event.get Fields.SESSION_ID) sessionId <;>
      cases h2 : Json.isText (record.event.get Fields.SPEC_VERSION) SPEC_VERSION <;> simp_all
  simp only [restoredRecord, hskip, ite_true, pure, Except.pure, Except.ok.injEq] at hstep
  exact hstep.symm

theorem restoredRecord_taken {session after : Session} {record : SealedRecord}
    (hin : inSession record sessionId)
    (hversion : Json.isText (record.event.get Fields.SPEC_VERSION) SPEC_VERSION = true)
    (hstep : restoredRecord P sessionId session record = .ok after) :
    (isAttempted record.event = true ∧ after = { restoredNumber record.event session with
      accepted := addTo session.accepted (eventId record.event) }) ∨
    (isAttempted record.event = false ∧ ∃ digest, digestOf P record.event = .ok digest ∧
      after = { restoredNumber record.event session with
        terminal := session.terminal.set (eventId record.event) digest }) := by
  obtain ⟨haccepted, hterminal⟩ := restoredNumber_fields record.event session
  have hskip : (!Json.isText (record.event.get Fields.SESSION_ID) sessionId ||
      !Json.isText (record.event.get Fields.SPEC_VERSION) SPEC_VERSION) = false := by
    simp [hversion, Json.isText_eq_true.mpr hin]
  simp only [restoredRecord, hskip, Bool.false_eq_true, ite_false, pure, Except.pure, bind, Except.bind] at hstep
  split at hstep
  · rename_i hkind
    exact Or.inl ⟨hkind, by rw [← Except.ok.inj hstep, haccepted]⟩
  · rename_i hkind
    split at hstep
    · cases hstep
    · rename_i digest hdigest
      exact Or.inr ⟨by simpa using hkind, digest, hdigest, by rw [← Except.ok.inj hstep, hterminal]⟩

theorem restoredRecord_restoredFrom {session after : Session} {done : List SealedRecord} {record : SealedRecord}
    (h : RestoredFrom sessionId session done) (hstep : restoredRecord P sessionId session record = .ok after) :
    RestoredFrom sessionId after (done ++ [record]) := by
  by_cases htaken : inSession record sessionId ∧
      Json.isText (record.event.get Fields.SPEC_VERSION) SPEC_VERSION = true
  · obtain ⟨hin, hversion⟩ := htaken
    have hdecided (k : JsString) (n : JsNum) : after.hasDecided k n ↔
        session.hasDecided k n ∨ numberOf record.event = some (k, n) := by
      rw [← hasDecided_restoredNumber]
      rcases restoredRecord_taken hin hversion hstep with ⟨-, rfl⟩ | ⟨-, digest, -, rfl⟩ <;> rfl
    have hreached (k : JsString) (n : JsNum)
        (hk : session.hasReached k n ∨ numberOf record.event = some (k, n)) : after.hasReached k n := by
      have hbase := hasReached_restoredNumber record.event hk
      rcases restoredRecord_taken hin hversion hstep with ⟨-, rfl⟩ | ⟨-, digest, -, rfl⟩ <;> exact hbase
    refine ⟨?_, ?_, ?_, ?_⟩
    · intro id hid
      rcases restoredRecord_taken hin hversion hstep with ⟨hkind, rfl⟩ | ⟨-, digest, -, rfl⟩
      · rcases (mem_addTo _ _ _).mp hid with hm | rfl
        · obtain ⟨other, ho, hother⟩ := h.accepted id hm
          exact ⟨other, by simp [ho], hother⟩
        · exact ⟨record, by simp, hin, hkind, rfl⟩
      · rw [(restoredNumber_fields record.event session).1] at hid
        obtain ⟨other, ho, hother⟩ := h.accepted id hid
        exact ⟨other, by simp [ho], hother⟩
    · intro other ho hadm hother hkind
      rcases restoredRecord_taken hin hversion hstep with ⟨hattempt, rfl⟩ | ⟨-, digest, -, rfl⟩
      · rw [(restoredNumber_fields record.event session).2]
        rcases List.mem_append.mp ho with hm | hm
        · exact h.terminal other hm hadm hother hkind
        · rw [List.mem_singleton.mp hm, hattempt] at hkind
          cases hkind
      · rw [OrderedMap.get_set]
        split
        · rfl
        · rename_i hne
          rcases List.mem_append.mp ho with hm | hm
          · exact h.terminal other hm hadm hother hkind
          · rw [List.mem_singleton.mp hm] at hne
            exact absurd rfl hne
    · intro other ho hadm hother k n hn
      rw [hdecided]
      rcases List.mem_append.mp ho with hm | hm
      · exact Or.inl (h.decided other hm hadm hother k n hn)
      · rw [List.mem_singleton.mp hm] at hn
        exact Or.inr hn
    · intro other ho hadm hother k n hn
      rcases List.mem_append.mp ho with hm | hm
      · exact hreached k n (Or.inl (h.reached other hm hadm hother k n hn))
      · rw [List.mem_singleton.mp hm] at hn
        exact hreached k n (Or.inr hn)
  · obtain rfl := restoredRecord_skipped htaken hstep
    have hnot (hadm : Admissible record.event) : ¬inSession record sessionId := fun hin =>
      htaken ⟨hin, Json.isText_eq_true.mpr hadm.current.version⟩
    refine ⟨?_, ?_, ?_, ?_⟩
    · intro id hid
      obtain ⟨other, ho, hother⟩ := h.accepted id hid
      exact ⟨other, by simp [ho], hother⟩
    · intro other ho hadm hother hkind
      rcases List.mem_append.mp ho with hm | hm
      · exact h.terminal other hm hadm hother hkind
      · rw [List.mem_singleton.mp hm] at hadm hother
        exact absurd hother (hnot hadm)
    · intro other ho hadm hother k n hn
      rcases List.mem_append.mp ho with hm | hm
      · exact h.decided other hm hadm hother k n hn
      · rw [List.mem_singleton.mp hm] at hadm hother
        exact absurd hother (hnot hadm)
    · intro other ho hadm hother k n hn
      rcases List.mem_append.mp ho with hm | hm
      · exact h.reached other hm hadm hother k n hn
      · rw [List.mem_singleton.mp hm] at hadm hother
        exact absurd hother (hnot hadm)

theorem restoredSession_restoredFrom {records : List SealedRecord} {session : Session}
    (h : restoredSession P sessionId records = .ok session) : RestoredFrom sessionId session records :=
  foldlM_ok_invariant (fun done session => RestoredFrom sessionId session done) records
    (fun _ _ _ _ _ _ hdone hstep => restoredRecord_restoredFrom hdone hstep)
    ⟨fun id hid => by simp [Session.new] at hid, fun _ hr => by simp at hr, fun _ hr => by simp at hr,
      fun _ hr => by simp at hr⟩ h

end

-- What taking over the stored records has done to a host, after some of them.
structure Remembered (P : Primitives) (start host : AuditHost) (done : List SealedRecord) : Prop where
  config : host.config = start.config
  ledger : host.ledger = start.ledger
  tailUncertain : host.tailUncertain = start.tailUncertain
  sessions : host.sessions = start.sessions
  tables : Tables P host done
  issued : ∀ record ∈ done, ∀ sessionId,
    record.event.get Fields.SESSION_ID = some (.str sessionId) → sessionId ∈ host.issued

theorem tables_nil {P : Primitives} {host : AuditHost} (hattempts : host.sealedAttempts = .empty)
    (hdigests : host.sealedDigests = []) : Tables P host [] :=
  ⟨by simp [hattempts], by simp [hdigests]⟩

theorem resumeRecord_remembered {P : Primitives} {start host after : AuditHost} {done : List SealedRecord}
    {record : SealedRecord} (h : Remembered P start host done)
    (hids : ∀ other ∈ done, AttemptIdsDiffer other record)
    (hstep : host.resumeRecord P record = .ok after) : Remembered P start after (done ++ [record]) := by
  unfold AuditHost.resumeRecord AuditHost.remember at hstep
  cases hd : digestOf P record.event with
  | error e => simp [hd, bind, Except.bind] at hstep
  | ok digest =>
      have hnew : isAttempted record.event = true → host.sealedAttempts.get (eventId record.event) = none := by
        intro hkind
        cases hget : host.sealedAttempts.get (eventId record.event) with
        | none => rfl
        | some other =>
            obtain ⟨hm, hk, he⟩ := (h.tables.attempts _ other).mp hget
            exact absurd he (hids other hm hk hkind)
      -- `noteSealed` is what committing does to the tables.
      have htables := h.tables.committing hnew hd
      have hattempts := committing_sealedAttempts host record digest
      have hdigests := committing_sealedDigests host record digest
      have hfields : ∃ attempts, host.noteSealed record digest =
          { host with sealedDigests := addTo host.sealedDigests digest, sealedAttempts := attempts } ∧
          attempts = (host.committing record digest).sealedAttempts := by
        rw [hattempts]
        unfold AuditHost.noteSealed
        split
        · exact ⟨_, rfl, rfl⟩
        · exact ⟨_, rfl, rfl⟩
      obtain ⟨attempts, hnote, hsame⟩ := hfields
      simp only [hd, bind, Except.bind, pure, Except.pure, hnote] at hstep
      have build (issued : List JsString) (hold : ∀ sid ∈ host.issued, sid ∈ issued)
          (hown : ∀ sid, record.event.get Fields.SESSION_ID = some (.str sid) → sid ∈ issued) :
          Remembered P start { host with
            sealedDigests := addTo host.sealedDigests digest, sealedAttempts := attempts, issued }
            (done ++ [record]) :=
        { config := h.config
          ledger := h.ledger
          tailUncertain := h.tailUncertain
          sessions := h.sessions
          tables := ⟨by rw [hsame]; exact htables.attempts, by rw [← hdigests]; exact htables.digests⟩
          issued := by
            intro other ho sid hsid
            rcases List.mem_append.mp ho with hm | hm
            · exact hold sid (h.issued other hm sid hsid)
            · rw [List.mem_singleton.mp hm] at hsid
              exact hown sid hsid }
      split at hstep
      · rename_i sid hsid
        obtain rfl := Except.ok.inj hstep
        refine build _ (fun other ho => by simp [ho]) fun other ho => ?_
        rw [hsid] at ho
        simp only [Option.some.injEq, Json.str.injEq] at ho
        simp [ho]
      · rename_i hsid
        obtain rfl := Except.ok.inj hstep
        exact build host.issued (fun _ ho => ho) fun sid hs => absurd hs (hsid sid)

theorem mem_foldl_addTo (values numbers : List JsNum) (n : JsNum) (h : n ∈ numbers) :
    n ∈ values.foldl addTo numbers := by
  induction values generalizing numbers with
  | nil => exact h
  | cons value rest ih => exact ih _ ((mem_addTo numbers value n).mpr (Or.inl h))

theorem sameSession_withDecided (session : Session) (entry : JsString × List JsNum) :
    SameSession session (session.withDecided entry) := by
  refine ⟨rfl, rfl, fun keyId signerSeq h => ?_, fun _ _ h => h⟩
  simp only [Session.hasDecided, Session.withDecided, OrderedMap.get_set] at h ⊢
  split
  · rename_i hk
    subst hk
    exact mem_foldl_addTo _ _ _ h
  · exact h

theorem sameSession_withReceived (session : Session) (entry : JsString × JsNum) :
    SameSession session (session.withReceived entry) := by
  refine ⟨rfl, rfl, fun _ _ h => h, ?_⟩
  rintro keyId n ⟨highest, hget, hlt⟩
  by_cases hk : entry.1 = keyId
  · subst hk
    exact ⟨highest.max entry.2, by simp [Session.withReceived, hget], JsNum.not_lt_max hlt⟩
  · exact ⟨highest, by simp [Session.withReceived, OrderedMap.get_set, hk, hget], hlt⟩

theorem sameSession_foldl {α : Type} (change : Session → α → Session)
    (hchange : ∀ session entry, SameSession session (change session entry)) (entries : List α)
    (session : Session) : SameSession session (entries.foldl change session) := by
  induction entries generalizing session with
  | nil => exact .refl session
  | cons entry rest ih => exact (hchange session entry).trans (ih _)

-- What a host kept outside the ledger only adds decisions to a restored session.
theorem sameSession_withSigners (session : Session) (signers : Option SignerTracker) :
    SameSession session (session.withSigners signers) := by
  cases signers with
  | none => exact .refl session
  | some signers =>
      exact (sameSession_foldl _ sameSession_withDecided signers.decided session).trans
        (sameSession_foldl _ sameSession_withReceived signers.received _)

-- Taking over an open session changes the open sessions and what was issued.
structure Reopened (P : Primitives) (records : List SealedRecord) (start host : AuditHost) : Prop where
  config : host.config = start.config
  ledger : host.ledger = start.ledger
  tailUncertain : host.tailUncertain = start.tailUncertain
  sealedAttempts : host.sealedAttempts = start.sealedAttempts
  sealedDigests : host.sealedDigests = start.sealedDigests
  issued : ∀ sessionId ∈ start.issued, sessionId ∈ host.issued
  restored : ∀ sessionId session, host.sessions.get sessionId = some session →
    sessionId ∈ host.issued ∧ ∃ base, restoredSession P sessionId records = .ok base ∧ SameSession base session

theorem resumeSession_reopened {P : Primitives} {records : List SealedRecord} {start host after : AuditHost}
    {entry : OpenSession} (h : Reopened P records start host)
    (hstep : host.resumeSession P records entry = .ok after) : Reopened P records start after := by
  unfold AuditHost.resumeSession at hstep
  cases hr : restoredSession P entry.sessionId records with
  | error e => simp [hr, bind, Except.bind] at hstep
  | ok base =>
      simp only [hr, bind, Except.bind, pure, Except.pure, Except.ok.injEq] at hstep
      subst hstep
      refine ⟨h.config, h.ledger, h.tailUncertain, h.sealedAttempts, h.sealedDigests, ?_, ?_⟩
      · intro sid hs
        simp [h.issued sid hs]
      · intro sid session hs
        simp only [OrderedMap.get_set] at hs
        split at hs
        · rename_i hsid
          subst hsid
          rw [← Option.some.inj hs]
          exact ⟨by simp, base, hr, sameSession_withSigners base entry.signers⟩
        · obtain ⟨hi, hbase⟩ := h.restored sid session hs
          exact ⟨by simp [hi], hbase⟩

theorem flagUnresolved_noted {P : Primitives} {host after : AuditHost} {records : List SealedRecord}
    {isOpen : List JsString} (h : host.flagUnresolved P records isOpen = .ok after) : Noted host after := by
  unfold AuditHost.flagUnresolved at h
  cases hf : records.foldlM (AuditHost.unresolvedStep P isOpen) OrderedMap.empty with
  | error e => simp [hf, bind, Except.bind] at h
  | ok attempts =>
      simp only [hf, bind, Except.bind, pure, Except.pure, Except.ok.injEq] at h
      subst h
      exact noted_flags _ _ _ _

-- The host `resume` builds: its chain state and tables are the stored chain's, and every
-- open session was restored from it.
structure Resumed (P : Primitives) (config : HostConfig) (records : List SealedRecord) (host : AuditHost) :
    Prop where
  config : host.config = config
  ledger : host.ledger = Ledger.resumeFrom records.getLast?
  tailUncertain : host.tailUncertain = false
  tables : Tables P host records
  issuedSealed : ∀ record ∈ records, ∀ sessionId,
    record.event.get Fields.SESSION_ID = some (.str sessionId) → sessionId ∈ host.issued
  restored : ∀ sessionId session, host.sessions.get sessionId = some session →
    sessionId ∈ host.issued ∧ ∃ base, restoredSession P sessionId records = .ok base ∧ SameSession base session

theorem resume_resumed {P : Primitives} {config : HostConfig} {records : List SealedRecord}
    {openSessions : List OpenSession} {host : AuditHost} (hids : records.Pairwise AttemptIdsDiffer)
    (h : AuditHost.resume P config records openSessions = .ok host) : Resumed P config records host := by
  unfold AuditHost.resume at h
  let start : AuditHost := { AuditHost.new config with ledger := Ledger.resumeFrom records.getLast? }
  change (do
    let host ← records.foldlM (AuditHost.resumeRecord P) start
    let host ← openSessions.foldlM (AuditHost.resumeSession P records) host
    host.flagUnresolved P records (openSessions.map OpenSession.sessionId)) = Except.ok host at h
  cases hrecords : records.foldlM (AuditHost.resumeRecord P) start with
  | error e => simp [hrecords, bind, Except.bind] at h
  | ok remembered =>
      simp only [hrecords, bind, Except.bind] at h
      have hrem : Remembered P start remembered records := by
        refine foldlM_ok_invariant (fun done host => Remembered P start host done) records ?_ ?_ hrecords
        · intro done record rest before after hsplit hdone hstep
          refine resumeRecord_remembered hdone ?_ hstep
          rw [hsplit] at hids
          exact fun other ho => (List.pairwise_append.mp hids).2.2 other ho record (by simp)
        · exact ⟨rfl, rfl, rfl, rfl, tables_nil rfl rfl, by simp⟩
      cases hopen : openSessions.foldlM (AuditHost.resumeSession P records) remembered with
      | error e => simp [hopen] at h
      | ok reopened =>
          simp only [hopen] at h
          have hre : Reopened P records remembered reopened := by
            refine foldlM_ok_invariant (fun _ host => Reopened P records remembered host) openSessions
              (fun _ _ _ _ _ _ hdone hstep => resumeSession_reopened hdone hstep) ?_ hopen
            refine ⟨rfl, rfl, rfl, rfl, rfl, fun _ hs => hs, ?_⟩
            intro sid session hs
            rw [hrem.sessions] at hs
            cases hs
          have hnoted := flagUnresolved_noted h
          exact
            { config := by rw [hnoted.config, hre.config, hrem.config]; rfl
              ledger := by rw [hnoted.ledger, hre.ledger, hrem.ledger]
              tailUncertain := by rw [hnoted.tailUncertain, hre.tailUncertain, hrem.tailUncertain]; rfl
              tables :=
                ⟨by rw [hnoted.sealedAttempts, hre.sealedAttempts]; exact hrem.tables.attempts,
                  by rw [hnoted.sealedDigests, hre.sealedDigests]; exact hrem.tables.digests⟩
              issuedSealed := by
                intro record hr sid hsid
                rw [hnoted.issued]
                exact hre.issued sid (hrem.issued record hr sid hsid)
              restored := by
                intro sid later hl
                obtain ⟨session, hs, hsame⟩ := hnoted.only sid later hl
                obtain ⟨hi, base, hbase, hsession⟩ := hre.restored sid session hs
                exact ⟨by rw [hnoted.issued]; exact hi, base, hbase, hsession.trans hsame⟩ }

theorem resumeFrom_tailHash (records : List SealedRecord) :
    (Ledger.resumeFrom records.getLast?).tailHash = tailHashOf records := by
  cases records using List.reverseRecOn with
  | nil => rfl
  | append_singleton init record => simp [Ledger.resumeFrom]

theorem resumeFrom_count {P : Primitives} {records : List SealedRecord} (h : IsChain P records) :
    (Ledger.resumeFrom records.getLast?).count = records.length := by
  cases hl : records.getLast? with
  | none => simp [Ledger.resumeFrom, List.getLast?_eq_none_iff.mp hl]
  | some record => exact isChain_length P h hl

theorem Sound.resumed {P : Primitives} {w : World} {committed pending : List SealedRecord}
    (h : Sound P w committed pending) {config : HostConfig} {openSessions : List OpenSession} {host : AuditHost}
    (hrepo : config.repository = true) (hhost : AuditHost.resume P config w.stored openSessions = .ok host) :
    Sound P (w.withHost host) w.stored [] ∧ Resumed P config w.stored host := by
  have hsound : SoundChain P w.stored := by
    cases hw : w.host.config.repository with
    | true => rw [← Sound.chain_of_repository hw]; exact h.soundChain
    | false =>
        rw [(h.memory hw).1]
        exact ⟨isChain_nil P, by simp, .nil, by simp⟩
  have hres := resume_resumed hsound.attemptIds hhost
  have hchain : World.chain (w.withHost host) = w.stored := by simp [World.chain, hres.config, hrepo]
  refine ⟨?_, hres⟩
  exact
    { chain := by rw [hchain, List.append_nil]
      count := by rw [hres.ledger, resumeFrom_count hsound.linked]
      tailHash := by rw [hres.ledger, resumeFrom_tailHash]
      doubt := Or.inl rfl
      memory := by
        intro hmem
        rw [hres.config, hrepo] at hmem
        cases hmem
      soundChain := by rw [hchain]; exact hsound
      tables := hres.tables
      issuedOpen := by
        intro sid hs
        obtain ⟨session, hsession⟩ := (OrderedMap.has_eq_true _ _).mp hs
        exact (hres.restored sid session hsession).1
      issuedSealed := by rw [hchain]; exact hres.issuedSealed }

end AuditableMcp
