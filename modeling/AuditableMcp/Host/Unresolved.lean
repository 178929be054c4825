import AuditableMcp.Host.Restart
import AuditableMcp.Library.Filters
import AuditableMcp.Sealed
import AuditableMcp.Reference.Events

-- Which attempts a restart flags, against which ones it leaves without an outcome.
namespace AuditableMcp

-- The session and the id a record is correlated under, where it carries both.
def recordOperation (record : SealedRecord) : Option (JsString × JsString) :=
  match record.event.get Fields.SESSION_ID, record.event.get Fields.ID with
  | some (.str sessionId), some (.str id) => some (sessionId, id)
  | _, _ => none

def isCurrent (record : SealedRecord) : Bool := Json.isText (record.event.get Fields.SPEC_VERSION) SPEC_VERSION

def recordsOf (records : List SealedRecord) (operation : JsString × JsString) : List SealedRecord :=
  records.filter fun record => recordOperation record = some operation

def endsAttempted (records : List SealedRecord) : Bool := records.getLast?.any fun record => isAttempted record.event

def endsEarlier (records : List SealedRecord) : Bool := records.getLast?.any fun record => !isCurrent record

-- The operation's last record is an attempt; of all its records, or of the current version's.
def leftOpen (records : List SealedRecord) (operation : JsString × JsString) : Bool :=
  endsAttempted (recordsOf records operation)

def currentOpen (records : List SealedRecord) (operation : JsString × JsString) : Bool :=
  endsAttempted ((recordsOf records operation).filter isCurrent)

-- The operations of the sessions that a restart ends.
def endedOperations (records : List SealedRecord) (isOpen : List JsString) : List (JsString × JsString) :=
  ((records.filterMap recordOperation).dedup).filter fun operation => operation.1 ∉ isOpen

-- The ids of the ended operations that are left open, once for each operation.
def unresolvedIds (records : List SealedRecord) (isOpen : List JsString) : List JsString :=
  ((endedOperations records isOpen).filter (leftOpen records)).map Prod.snd

-- The host holds one `unresolved-attempt` for each of the ids, and nothing else.
def FlagsExactly (host : AuditHost) (ids : List JsString) : Prop :=
  (host.anomalies.map fun anomaly => (anomaly.id, anomaly.kind)).Perm (ids.map fun id => (id, .unresolvedAttempt))

-- Left open by an attempt of an earlier version.
def missed (records : List SealedRecord) (operation : JsString × JsString) : Bool :=
  endsEarlier (recordsOf records operation) && leftOpen records operation && !currentOpen records operation

-- Concluded by an outcome of an earlier version, behind an attempt of the current one.
def mistaken (records : List SealedRecord) (operation : JsString × JsString) : Bool :=
  endsEarlier (recordsOf records operation) && !leftOpen records operation && currentOpen records operation

theorem endsAttempted_append_singleton (records : List SealedRecord) (record : SealedRecord) :
    endsAttempted (records ++ [record]) = isAttempted record.event := by
  simp [endsAttempted]

-- Only a last record of an earlier version tells the two readings of an operation apart.
theorem endsAttempted_current {records : List SealedRecord} (h : endsEarlier records = false) :
    endsAttempted (records.filter isCurrent) = endsAttempted records := by
  cases records using List.reverseRecOn with
  | nil => rfl
  | append_singleton init record =>
      have hcurrent : isCurrent record = true := by simpa [endsEarlier] using h
      rw [List.filter_append, List.filter_singleton, hcurrent, cond_true, endsAttempted_append_singleton,
        endsAttempted_append_singleton]

theorem missed_eq (records : List SealedRecord) (operation : JsString × JsString) :
    missed records operation = (leftOpen records operation && !currentOpen records operation) := by
  unfold missed
  cases h : endsEarlier (recordsOf records operation) with
  | true => rfl
  | false =>
      have hsame : currentOpen records operation = leftOpen records operation := endsAttempted_current h
      simp [hsame]

theorem mistaken_eq (records : List SealedRecord) (operation : JsString × JsString) :
    mistaken records operation = (currentOpen records operation && !leftOpen records operation) := by
  unfold mistaken
  cases h : endsEarlier (recordsOf records operation) with
  | true => simp [Bool.and_comm]
  | false =>
      have hsame : currentOpen records operation = leftOpen records operation := endsAttempted_current h
      simp [hsame]

theorem recordsOf_append_singleton (records : List SealedRecord) (record : SealedRecord)
    (operation : JsString × JsString) : recordsOf (records ++ [record]) operation =
      recordsOf records operation ++ (if recordOperation record = some operation then [record] else []) := by
  by_cases h : recordOperation record = some operation <;> simp [recordsOf, h]

-- An operation that another record belongs to, or that it does not count for, stands as it was.
theorem currentOpen_of_ne {records : List SealedRecord} {record : SealedRecord} {operation : JsString × JsString}
    (h : ¬(recordOperation record = some operation ∧ isCurrent record = true)) :
    currentOpen (records ++ [record]) operation = currentOpen records operation := by
  unfold currentOpen
  rw [recordsOf_append_singleton]
  by_cases hop : recordOperation record = some operation
  · have hcurrent : isCurrent record = false := by
      cases hc : isCurrent record with
      | false => rfl
      | true => exact absurd ⟨hop, hc⟩ h
    simp [hop, hcurrent]
  · simp [hop]

theorem currentOpen_of_eq {records : List SealedRecord} {record : SealedRecord} {operation : JsString × JsString}
    (hop : recordOperation record = some operation) (hcurrent : isCurrent record = true) :
    currentOpen (records ++ [record]) operation = isAttempted record.event := by
  unfold currentOpen
  rw [recordsOf_append_singleton, if_pos hop, List.filter_append, List.filter_singleton, hcurrent, cond_true,
    endsAttempted_append_singleton]

-- A session's event carries its id as a text.
def NamesId (record : SealedRecord) : Prop :=
  ∀ sessionId, record.event.get Fields.SESSION_ID = some (.str sessionId) →
    ∃ id, record.event.get Fields.ID = some (.str id)

-- What one stored record does to the attempts left open.
theorem unresolvedStep_eq (P : Primitives) (isOpen : List JsString)
    (attempts : OrderedMap (JsString × JsString) JsString) {record : SealedRecord} (h : NamesId record) :
    AuditHost.unresolvedStep P isOpen attempts record =
      .ok (match recordOperation record with
        | some operation =>
            if isCurrent record = true ∧ operation.1 ∉ isOpen then
              if isAttempted record.event then attempts.set operation operation.2 else attempts.delete operation
            else attempts
        | none => attempts) := by
  unfold AuditHost.unresolvedStep
  split
  · rename_i sessionId hsession
    obtain ⟨id, hid⟩ := h sessionId hsession
    have htext : stringOfOption P (some (.str id)) = .ok id := by simp [stringOfOption, stringOf]
    have hop : recordOperation record = some (sessionId, id) := by simp [recordOperation, hsession, hid]
    simp only [hop, hid, isCurrent, htext, bind, Except.bind, pure, Except.pure]
    cases hcurrent : Json.isText (record.event.get Fields.SPEC_VERSION) SPEC_VERSION with
    | false => simp
    | true =>
        by_cases hopen : sessionId ∈ isOpen
        · simp [hopen]
        · cases isAttempted record.event <;> simp [hopen]
  · rename_i hnone
    have hop : recordOperation record = none := by
      unfold recordOperation
      split
      · exact absurd ‹record.event.get Fields.SESSION_ID = some (.str _)› (hnone _)
      · rfl
    rw [hop]

-- After some records, the map holds the ended operations that the current version left open.
structure LeftOpen (isOpen : List JsString) (done : List SealedRecord)
    (attempts : OrderedMap (JsString × JsString) JsString) : Prop where
  nodup : attempts.keys.Nodup
  get : ∀ operation, attempts.get operation =
    if operation.1 ∉ isOpen ∧ currentOpen done operation = true then some operation.2 else none

theorem LeftOpen.next {P : Primitives} {isOpen : List JsString} {done : List SealedRecord}
    {attempts after : OrderedMap (JsString × JsString) JsString} {record : SealedRecord}
    (h : LeftOpen isOpen done attempts) (hnames : NamesId record)
    (hstep : AuditHost.unresolvedStep P isOpen attempts record = .ok after) :
    LeftOpen isOpen (done ++ [record]) after := by
  rw [unresolvedStep_eq P isOpen attempts hnames] at hstep
  have hafter := Except.ok.inj hstep
  -- A record that is skipped leaves every ended operation as it was.
  have hskip (hne : ∀ operation, operation.1 ∉ isOpen →
      ¬(recordOperation record = some operation ∧ isCurrent record = true)) (hsame : attempts = after) :
      LeftOpen isOpen (done ++ [record]) after := by
    refine ⟨hsame ▸ h.nodup, fun operation => ?_⟩
    rw [← hsame, h.get operation]
    by_cases hended : operation.1 ∈ isOpen
    · simp [hended]
    · rw [currentOpen_of_ne (hne operation hended)]
  cases hop : recordOperation record with
  | none =>
      rw [hop] at hafter
      exact hskip (fun operation _ => by simp [hop]) hafter
  | some own =>
      simp only [hop] at hafter
      by_cases htaken : isCurrent record = true ∧ own.1 ∉ isOpen
      · rw [if_pos htaken] at hafter
        have hown : currentOpen (done ++ [record]) own = isAttempted record.event := currentOpen_of_eq hop htaken.1
        have hother (operation : JsString × JsString) (hne : own ≠ operation) :
            currentOpen (done ++ [record]) operation = currentOpen done operation :=
          currentOpen_of_ne fun ⟨he, _⟩ => hne (Option.some.inj (hop ▸ he))
        cases hkind : isAttempted record.event with
        | true =>
            rw [hkind, if_pos rfl] at hafter
            subst hafter
            refine ⟨OrderedMap.nodup_keys_set h.nodup own own.2, fun operation => ?_⟩
            rw [OrderedMap.get_set]
            by_cases hne : own = operation
            · subst hne
              rw [if_pos rfl, hown, hkind, if_pos ⟨htaken.2, rfl⟩]
            · rw [if_neg hne, hother operation hne]
              exact h.get operation
        | false =>
            rw [hkind, if_neg Bool.false_ne_true] at hafter
            subst hafter
            refine ⟨OrderedMap.nodup_keys_delete h.nodup own, fun operation => ?_⟩
            rw [OrderedMap.get_delete]
            by_cases hne : own = operation
            · subst hne
              rw [if_pos rfl, hown, hkind, if_neg (by simp)]
            · rw [if_neg hne, hother operation hne]
              exact h.get operation
      · rw [if_neg htaken] at hafter
        apply hskip _ hafter
        rintro operation hended ⟨he, hcurrent⟩
        have hsame : own = operation := Option.some.inj (hop ▸ he)
        exact htaken ⟨hcurrent, hsame ▸ hended⟩

theorem unresolved_leftOpen (P : Primitives) (isOpen : List JsString) {records : List SealedRecord}
    (h : ∀ record ∈ records, NamesId record) :
    ∃ attempts, records.foldlM (AuditHost.unresolvedStep P isOpen) OrderedMap.empty = .ok attempts ∧
      LeftOpen isOpen records attempts := by
  have hsteps : ∀ record ∈ records, ∀ attempts, True →
      ∃ after, AuditHost.unresolvedStep P isOpen attempts record = .ok after ∧ True := by
    intro record hr attempts _
    rw [unresolvedStep_eq P isOpen attempts (h record hr)]
    exact ⟨_, rfl, trivial⟩
  obtain ⟨attempts, hattempts, -⟩ := foldlM_total _ records hsteps (s := OrderedMap.empty) trivial
  refine ⟨attempts, hattempts, foldlM_ok_invariant (LeftOpen isOpen) records ?_ ?_ hattempts⟩
  · intro done record rest before after hsplit hdone hstep
    exact hdone.next (h record (by rw [hsplit]; simp)) hstep
  · exact ⟨List.nodup_nil, fun operation => by simp [currentOpen, recordsOf, endsAttempted]⟩

-- The map's values are the ids of its keys, and its keys are the operations it flags.
theorem LeftOpen.values {isOpen : List JsString} {records : List SealedRecord}
    {attempts : OrderedMap (JsString × JsString) JsString} (h : LeftOpen isOpen records attempts) :
    (attempts.entries.map Prod.snd).Perm
      (((endedOperations records isOpen).filter (currentOpen records)).map Prod.snd) := by
  have hvalues : attempts.entries.map Prod.snd = attempts.keys.map Prod.snd := by
    rw [OrderedMap.keys, List.map_map]
    apply List.map_congr_left
    intro ⟨operation, id⟩ hm
    have hget := (OrderedMap.mem_entries_iff h.nodup operation id).mp hm
    rw [h.get operation] at hget
    split at hget
    · exact (Option.some.inj hget).symm
    · cases hget
  rw [hvalues]
  apply List.Perm.map
  have hended : (endedOperations records isOpen).Nodup := (List.nodup_dedup _).filter _
  apply (List.perm_ext_iff_of_nodup h.nodup (hended.filter _)).mpr
  intro operation
  rw [OrderedMap.mem_keys_iff h.nodup, h.get operation, List.mem_filter, endedOperations, List.mem_filter]
  constructor
  · intro hkey
    by_cases hflagged : operation.1 ∉ isOpen ∧ currentOpen records operation = true
    · refine ⟨⟨?_, by simp [hflagged.1]⟩, hflagged.2⟩
      -- An operation that ends attempted has a record.
      have hne : recordsOf records operation ≠ [] := by
        intro hnil
        have hopen := hflagged.2
        simp [currentOpen, hnil, endsAttempted] at hopen
      obtain ⟨record, hrecord⟩ := List.exists_mem_of_ne_nil _ hne
      have hmem := List.mem_filter.mp hrecord
      exact List.mem_dedup.mpr (List.mem_filterMap.mpr ⟨record, hmem.1, by simpa using hmem.2⟩)
    · rw [if_neg hflagged] at hkey
      cases hkey
  · rintro ⟨⟨-, hended⟩, hopen⟩
    rw [if_pos ⟨by simpa using hended, hopen⟩]
    rfl

-- Whatever a chain's hash covers can be digested again.
theorem canonicalizable_of_linkHash {P : Primitives} {n : Nat} {prev : JsString} {body : Json × Option Json}
    {recordHash : JsString} (h : linkHash P n prev body = some recordHash) : Canonicalizable body.1 := by
  obtain ⟨text, htext, -⟩ := bind_ok (linkHash_eq_some.mp h)
  have hpreimage := (canonicalizable_of_ok htext).1
  obtain ⟨event, hostTs⟩ := body
  cases hostTs <;>
    simp_all [Canonicalizable, recordPreimage, objectOf, hasUnsafeNumber, hasUnsafeNumber.members, hasLoneSurrogate,
      hasLoneSurrogate.members]

theorem IsChain.canonicalizable {P : Primitives} {records : List SealedRecord} (h : IsChain P records) :
    ∀ record ∈ records, Canonicalizable record.event := by
  induction records using List.reverseRecOn with
  | nil => simp
  | append_singleton init last ih =>
      obtain ⟨hinit, -, -, hhash⟩ := (isChain_append_singleton P init last).mp h
      intro record hr
      rcases List.mem_append.mp hr with hm | hm
      · exact ih hinit record hm
      · rw [List.mem_singleton.mp hm]
        exact canonicalizable_of_linkHash hhash

section

variable {P : Primitives} {record : SealedRecord}

theorem digestOf_isOk (h : Canonicalizable record.event) : ∃ digest, digestOf P record.event = .ok digest := by
  refine ⟨sha256Hex P (P.jcsCanonicalize record.event), ?_⟩
  simp [digestOf, canonicalize_of_canonicalizable P h, bind, Except.bind, pure, Except.pure]

theorem resumeRecord_isOk (h : Canonicalizable record.event) (host : AuditHost) :
    ∃ after, host.resumeRecord P record = .ok after ∧ after.anomalies = host.anomalies := by
  obtain ⟨digest, hdigest⟩ := digestOf_isOk (P := P) h
  have hnoted : (host.noteSealed record digest).anomalies = host.anomalies := by
    unfold AuditHost.noteSealed
    dsimp only
    split <;> rfl
  simp only [AuditHost.resumeRecord, AuditHost.remember, hdigest, bind, Except.bind, pure, Except.pure]
  split
  · exact ⟨_, rfl, hnoted⟩
  · exact ⟨_, rfl, hnoted⟩

theorem restoredRecord_isOk (h : Canonicalizable record.event) (sessionId : JsString) (session : Session) :
    ∃ after, restoredRecord P sessionId session record = .ok after := by
  obtain ⟨digest, hdigest⟩ := digestOf_isOk (P := P) h
  simp only [restoredRecord, hdigest, bind, Except.bind, pure, Except.pure]
  split
  · exact ⟨_, rfl⟩
  · split
    · exact ⟨_, rfl⟩
    · exact ⟨_, rfl⟩

theorem resumeSession_isOk {records : List SealedRecord} (h : ∀ record ∈ records, Canonicalizable record.event)
    (host : AuditHost) (entry : OpenSession) :
    ∃ after, host.resumeSession P records entry = .ok after ∧ after.anomalies = host.anomalies := by
  obtain ⟨session, hsession, -⟩ := foldlM_total (f := restoredRecord P entry.sessionId) (fun _ => True) records
    (fun record hr session _ => by
      obtain ⟨after, hafter⟩ := restoredRecord_isOk (P := P) (h record hr) entry.sessionId session
      exact ⟨after, hafter, trivial⟩) (s := Session.new) trivial
  simp only [AuditHost.resumeSession, restoredSession, hsession, bind, Except.bind, pure, Except.pure]
  exact ⟨_, rfl, rfl⟩

end

theorem namesId_of_valid {record : SealedRecord} (h : firstSealedValidationError (some record.event) = none) :
    NamesId record := by
  obtain ⟨version, hsealed⟩ := sealedEvent_of_valid h
  exact fun _ _ => hsealed.id

-- What a restart flags is what the records of the current version leave open.
theorem resume_flags (P : Primitives) (config : HostConfig) {records : List SealedRecord}
    (openSessions : List OpenSession) (hchain : IsChain P records)
    (hids : ∀ record ∈ records, NamesId record) :
    ∃ host, AuditHost.resume P config records openSessions = .ok host ∧
      FlagsExactly host (((endedOperations records (openSessions.map OpenSession.sessionId)).filter
        (currentOpen records)).map Prod.snd) := by
  have hcanonicalizable := hchain.canonicalizable
  let start : AuditHost := { AuditHost.new config with ledger := Ledger.resumeFrom records.getLast? }
  obtain ⟨remembered, hremembered, hnone⟩ := foldlM_total (f := AuditHost.resumeRecord P)
    (fun host => host.anomalies = []) records (fun record hr host hh => by
      obtain ⟨after, hafter, hsame⟩ := resumeRecord_isOk (P := P) (hcanonicalizable record hr) host
      exact ⟨after, hafter, hsame.trans hh⟩) (s := start) rfl
  obtain ⟨reopened, hreopened, hnone⟩ := foldlM_total (f := AuditHost.resumeSession P records)
    (fun host => host.anomalies = []) openSessions (fun entry _ host hh => by
      obtain ⟨after, hafter, hsame⟩ := resumeSession_isOk (P := P) hcanonicalizable host entry
      exact ⟨after, hafter, hsame.trans hh⟩) (s := remembered) hnone
  obtain ⟨attempts, hattempts, hleft⟩ := unresolved_leftOpen P (openSessions.map OpenSession.sessionId) hids
  let detail : JsString → AnomalyDetail := fun id =>
    .text (JsString.ofString "host restarted with attempt " ++ id ++ " unresolved")
  let host := (attempts.entries.map Prod.snd).foldl (fun host id => host.flag id .unresolvedAttempt (detail id)) reopened
  refine ⟨host, ?_, ?_⟩
  · have hresume : AuditHost.resume P config records openSessions = (do
        let host ← records.foldlM (AuditHost.resumeRecord P) start
        let host ← openSessions.foldlM (AuditHost.resumeSession P records) host
        host.flagUnresolved P records (openSessions.map OpenSession.sessionId)) := rfl
    rw [hresume, hremembered]
    simp only [bind, Except.bind, hreopened, AuditHost.flagUnresolved, hattempts]
    rfl
  · have hanomalies : host.anomalies = (attempts.entries.map Prod.snd).map fun id =>
        ⟨id, .unresolvedAttempt, detail id⟩ := by
      rw [show host.anomalies = _ from foldl_flag_anomalies _ _ detail reopened, hnone, List.nil_append]
    unfold FlagsExactly
    rw [hanomalies, List.map_map]
    exact hleft.values.map fun id => (id, Tier1Code.unresolvedAttempt)

theorem flagsExactly_iff {host : AuditHost} {ids : List JsString} (h : FlagsExactly host ids) (others : List JsString) :
    FlagsExactly host others ↔ ids.Perm others := by
  have hinjective : Function.Injective fun id : JsString => (id, Tier1Code.unresolvedAttempt) :=
    fun _ _ he => (Prod.mk.inj he).1
  unfold FlagsExactly at h ⊢
  rw [← List.map_perm_map_iff hinjective]
  exact ⟨fun ho => h.symm.trans ho, fun ho => h.trans ho⟩

-- A restart flags exactly the attempts it ended, unless the version filter tells: for
-- some id it misses more operations than it mistakes, or mistakes more than it misses.
theorem resume_flags_iff (P : Primitives) (config : HostConfig) {records : List SealedRecord}
    (openSessions : List OpenSession) (hchain : IsChain P records)
    (hvalid : ∀ record ∈ records, firstSealedValidationError (some record.event) = none) :
    ∃ host, AuditHost.resume P config records openSessions = .ok host ∧
      (FlagsExactly host (unresolvedIds records (openSessions.map OpenSession.sessionId)) ↔
        ∀ id : JsString,
          (endedOperations records (openSessions.map OpenSession.sessionId)).countP
              (fun operation => missed records operation && decide (operation.2 = id)) =
            (endedOperations records (openSessions.map OpenSession.sessionId)).countP
              (fun operation => mistaken records operation && decide (operation.2 = id))) := by
  obtain ⟨host, hhost, hflags⟩ := resume_flags P config openSessions hchain
    fun record hr => namesId_of_valid (hvalid record hr)
  refine ⟨host, hhost, ?_⟩
  rw [flagsExactly_iff hflags, unresolvedIds, perm_map_filter_iff]
  apply forall_congr'
  intro id
  simp only [missed_eq, mistaken_eq]
  exact eq_comm

section

open Reference

theorem sealedRecords_isChain (events : List Json) : IsChain primitives (sealedRecords events) := by
  unfold sealedRecords
  cases hledger : Ledger.new.appendAll primitives (events.map fun event => (event, some (.str NOON))) with
  | ok ledger => exact (appendAll_isChain _ hledger).1
  | error e => exact isChain_nil primitives

theorem sealedRecords_valid {events : List Json} (hlength : (sealedRecords events).length = events.length)
    (hvalid : ∀ event ∈ events, firstSealedValidationError (some event) = none) :
    ∀ record ∈ sealedRecords events, firstSealedValidationError (some record.event) = none := by
  intro record hr
  have hentry := List.mem_map_of_mem (f := fun record : SealedRecord => (record.event, record.host_ts)) hr
  rw [sealedRecords_events hlength] at hentry
  obtain ⟨event, he, hentry⟩ := List.mem_map.mp hentry
  rw [← (Prod.mk.inj hentry).1]
  exact hvalid event he

-- One operation concluded and one left open, both of the current version.
def restartedRecords : List SealedRecord :=
  sealedRecords [toolEvent SESSION_A EVENT_1 Outcome.ATTEMPTED [], toolEvent SESSION_A EVENT_2 Outcome.ATTEMPTED [],
    toolEvent SESSION_A EVENT_1 Outcome.SUCCESS []]

theorem restartedRecords_flags : ∃ host, AuditHost.resume primitives (tenant .L1) restartedRecords [] = .ok host ∧
    (FlagsExactly host (unresolvedIds restartedRecords []) ↔ ∀ id : JsString,
      (endedOperations restartedRecords []).countP
          (fun operation => missed restartedRecords operation && decide (operation.2 = id)) =
        (endedOperations restartedRecords []).countP
          (fun operation => mistaken restartedRecords operation && decide (operation.2 = id))) :=
  resume_flags_iff primitives (tenant .L1) [] (sealedRecords_isChain _)
    (sealedRecords_valid (by decide +kernel) (by decide +kernel))

-- An operation that a host of the version before had only sealed the attempt of.
def upgradedRecords : List SealedRecord :=
  sealedRecords [eventOf "auditable-mcp/0.3" (Fields.SESSION_ID, .str SESSION_A) EVENT_1 Outcome.ATTEMPTED []]

def flaggedIds (resumed : Except JsError AuditHost) : Option (List JsString) :=
  resumed.toOption.map fun host => host.anomalies.map IntegrityAnomaly.id

theorem upgradedRecords_unflagged : ¬∀ (P : Primitives) (config : HostConfig) (records : List SealedRecord)
    (openSessions : List OpenSession), IsChain P records →
    (∀ record ∈ records, firstSealedValidationError (some record.event) = none) →
    ∃ host, AuditHost.resume P config records openSessions = .ok host ∧
      FlagsExactly host (unresolvedIds records (openSessions.map OpenSession.sessionId)) := by
  intro h
  obtain ⟨host, hhost, hflags⟩ := h primitives (tenant .L1) upgradedRecords [] (sealedRecords_isChain _)
    (sealedRecords_valid (by decide +kernel) (by decide +kernel))
  have hnone : flaggedIds (AuditHost.resume primitives (tenant .L1) upgradedRecords []) = some [] := by decide +kernel
  rw [hhost] at hnone
  have hempty : host.anomalies = [] := by simpa [flaggedIds, Except.toOption] using hnone
  have hone : (unresolvedIds upgradedRecords []).length = 1 := by decide +kernel
  have hcount := hflags.length_eq
  rw [List.length_map, List.length_map, hempty, List.map_nil, hone] at hcount
  cases hcount

end

end AuditableMcp
