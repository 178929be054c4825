import AuditableMcp.Verify.Walks

namespace AuditableMcp

-- What a broken chain is reported as. Of `schema-invalid` the walk reports only records
-- that cannot be canonicalized.
def chainKinds : List Tier1Code := [.seqGap, .recordHashMismatch, .schemaInvalid]

def NoChainIssue (issues : List VerifyIssue) : Prop := ∀ issue ∈ issues, issue.kind ∉ chainKinds

theorem noChainIssue_append {first second : List VerifyIssue} :
    NoChainIssue (first ++ second) ↔ NoChainIssue first ∧ NoChainIssue second := by
  simp [NoChainIssue, or_imp, forall_and]

theorem Finds.noChainIssue {record : StoredRecord} {allowed : List Tier1Code} {before after : Walk}
    (h : Finds record allowed before after) (hallowed : ∀ kind ∈ allowed, kind ∉ chainKinds) :
    NoChainIssue after.issues ↔ NoChainIssue before.issues := by
  obtain ⟨new, hnew, hn⟩ := h.issues
  rw [hnew, noChainIssue_append]
  exact ⟨And.left, fun hb => ⟨hb, fun issue hi => hallowed _ (hn issue hi).1⟩⟩

theorem noChainIssue_reportIf {walk : Walk} {found : Bool} {record : StoredRecord} {kind : Tier1Code}
    {detail : JsString} (hkind : kind ∈ chainKinds) :
    NoChainIssue (walk.reportIf found record kind detail).issues ↔ NoChainIssue walk.issues ∧ found = false := by
  cases found with
  | false => simp [Walk.reportIf]
  | true => simp [Walk.reportIf, Walk.report, NoChainIssue, hkind]

theorem besideChain_disjoint : ∀ kind ∈ besideChain, kind ∉ chainKinds := by
  simp [besideChain, besideSignature, identityKinds, chainKinds]

-- What the walk asks of one record: its position, and the two links.
structure RecordLinks (P : Primitives) (walk : Walk) (record : StoredRecord) (recomputed : JsString) : Prop where
  seq : Json.strictEq record.seq (some (.num (.ofNat walk.index))) = true
  hash : computeRecordHash P record.event record.seq record.host_ts walk.prevRecomputed = .ok recomputed
  previous_hash : Json.strictEq record.previous_hash walk.prevRecomputed = true
  record_hash : Json.strictEq record.record_hash (some (.str recomputed)) = true

theorem Reports.noChainIssue {record : StoredRecord} {kind : Tier1Code} {found : Prop} {before after : Walk}
    (h : Reports record kind found before after) (hkind : kind ∈ chainKinds) :
    NoChainIssue after.issues ↔ NoChainIssue before.issues ∧ ¬found := by
  rcases h with ⟨hfound, detail, rfl⟩ | ⟨hnot, rfl⟩
  · simp [Walk.report, NoChainIssue, hkind, hfound]
  · simp [hnot]

-- One turn of the loop stays clean exactly where the record links.
theorem verifyRecord_clean {P : Primitives} {inputs : VerifyInputs} {walk after : Walk} {record : StoredRecord}
    (h : verifyRecord P inputs walk record = .ok after) :
    after.index = walk.index + 1 ∧
      (NoChainIssue after.issues ↔ NoChainIssue walk.issues ∧ ∃ recomputed, RecordLinks P walk record recomputed) ∧
      ∀ recomputed, RecordLinks P walk record recomputed → after.prevRecomputed = some (.str recomputed) := by
  obtain ⟨checked, hseq, h⟩ := bind_ok h
  have hreports := checkSequence_reports hseq
  obtain ⟨hindex, hprev, -, -⟩ := hreports.fields
  have hclean := hreports.noChainIssue (by simp [chainKinds])
  rw [hprev] at h
  cases hhash : computeRecordHash P record.event record.seq record.host_ts walk.prevRecomputed with
  | ok recomputed =>
      simp only [hhash] at h
      obtain ⟨hi, hp, last, hfinds, hissues⟩ := checkHashable_finds signatureFinds_any h
      refine ⟨by rw [hi, hindex], ?_, ?_⟩
      · rw [hissues, hfinds.noChainIssue besideChain_disjoint]
        unfold checkHashes
        rw [noChainIssue_reportIf (by simp [chainKinds]), noChainIssue_reportIf (by simp [chainKinds]), hclean,
          hprev]
        constructor
        · rintro ⟨⟨⟨hw, hs⟩, hlink⟩, hstored⟩
          exact ⟨hw, recomputed, by simpa using hs, hhash, by simpa using hlink, by simpa using hstored⟩
        · rintro ⟨hw, other, hs, ho, hlink, hstored⟩
          obtain rfl : recomputed = other := by
            rw [hhash] at ho
            exact Except.ok.inj ho
          exact ⟨⟨⟨hw, by simp [hs]⟩, by simp [hlink]⟩, by simp [hstored]⟩
      · intro other ho
        obtain rfl : recomputed = other := by
          have := ho.hash
          rw [hhash] at this
          exact Except.ok.inj this
        exact hp
  | error e =>
      have hno (other : JsString) : ¬RecordLinks P walk record other := by
        intro ho
        have := ho.hash
        rw [hhash] at this
        cases this
      cases e with
      | canonicalizationError message =>
          simp only [hhash] at h
          obtain ⟨hi, -, last, hfinds, hissues⟩ := checkUnhashable_finds h
          refine ⟨by rw [hi, hindex], ?_, fun other ho => absurd ho (hno other)⟩
          rw [hissues, hfinds.noChainIssue (by simp [identityKinds, chainKinds])]
          simp only [Walk.report, noChainIssue_append]
          constructor
          · rintro ⟨-, hlast⟩
            exact absurd (show Tier1Code.schemaInvalid ∈ chainKinds by simp [chainKinds]) (hlast _ (List.mem_singleton_self _))
          · rintro ⟨-, other, ho⟩
            exact absurd ho (hno other)
      | _ => simp [hhash] at h

-- A record's event and timestamp, where it has an event to append.
def StoredRecord.entry (record : StoredRecord) : Option (Json × Option Json) :=
  record.event.map fun event => (event, record.host_ts)

-- The members that place a record in its chain.
def StoredRecord.links (record : StoredRecord) : Option Json × Option Json × Option Json :=
  (record.seq, record.previous_hash, record.record_hash)

def HasEvents (records : List StoredRecord) : Prop :=
  ∀ record ∈ records, ∃ members, record.event = some (.obj members)

-- The chain that folding `Ledger.append` over the records' own events and timestamps
-- produces is these records.
def IsLedgerChain (P : Primitives) (records : List StoredRecord) : Prop :=
  ∃ ledger, Ledger.new.appendAll P (records.filterMap StoredRecord.entry) = .ok ledger ∧
    records.map StoredRecord.links = ledger.records.map fun record => record.toStored.links

namespace Ledger

theorem appendAll_count {P : Primitives} {entries : List (Json × Option Json)} {ledger next : Ledger}
    (h : ledger.appendAll P entries = .ok next) : next.count = ledger.count + entries.length := by
  induction entries generalizing ledger with
  | nil =>
      obtain rfl := Except.ok.inj h
      rfl
  | cons head rest ih =>
      obtain ⟨event, hostTs⟩ := head
      obtain ⟨middle, hm, h⟩ := bind_ok h
      obtain ⟨recordHash, -, rfl⟩ := append_ok.mp hm
      rw [ih h, List.length_cons]
      simp only [commit]
      omega

end Ledger

theorem strictEq_num_iff {value : Option Json} {n : Nat} :
    Json.strictEq value (some (.num (.ofNat n))) = true ↔ value = some (.num (.ofNat n)) := by
  unfold Json.strictEq JsNum.ofNat
  cases value with
  | none => simp
  | some v => cases v <;> simp

theorem strictEq_str_iff {value : Option Json} {text : JsString} :
    Json.strictEq value (some (.str text)) = true ↔ value = some (.str text) := by
  unfold Json.strictEq
  cases value with
  | none => simp
  | some v => cases v <;> simp

theorem isLedgerChain_nil (P : Primitives) : IsLedgerChain P [] := ⟨Ledger.new, rfl, rfl⟩

-- One record more: it is what the ledger appends next.
theorem isLedgerChain_append_singleton {P : Primitives} {records : List StoredRecord} {record : StoredRecord}
    {event : Json} (hevents : HasEvents records) (hevent : record.event = some event) :
    IsLedgerChain P (records ++ [record]) ↔
      ∃ ledger, Ledger.new.appendAll P (records.filterMap StoredRecord.entry) = .ok ledger ∧
        records.map StoredRecord.links = (ledger.records.map fun r => r.toStored.links) ∧
        record.seq = some (.num (.ofNat records.length)) ∧
        record.previous_hash = some (.str ledger.tailHash) ∧
        ∃ recordHash, record.record_hash = some (.str recordHash) ∧
          computeRecordHash P record.event record.seq record.host_ts (some (.str ledger.tailHash)) =
            .ok recordHash := by
  have hentry : record.entry = some (event, record.host_ts) := by simp [StoredRecord.entry, hevent]
  have hlength : (records.filterMap StoredRecord.entry).length = records.length := by
    have hall : ∀ r ∈ records, (StoredRecord.entry r).isSome = true := by
      intro r hr
      obtain ⟨members, hm⟩ := hevents r hr
      simp [StoredRecord.entry, hm]
    exact List.filterMap_length_eq_length.mpr hall
  have hcount (ledger : Ledger) (h : Ledger.new.appendAll P (records.filterMap StoredRecord.entry) = .ok ledger) :
      ledger.count = records.length := by
    rw [Ledger.appendAll_count h, hlength]
    simp [Ledger.new]
  unfold IsLedgerChain
  rw [List.filterMap_append, List.filterMap_cons_some hentry, List.filterMap_nil,
    Ledger.appendAll_append_singleton]
  constructor
  · rintro ⟨last, h, hlinks⟩
    obtain ⟨ledger, hledger, h⟩ := bind_ok h
    obtain ⟨recordHash, hhash, rfl⟩ := Ledger.append_ok.mp h
    simp only [Ledger.commit, List.map_append, List.map_singleton] at hlinks
    obtain ⟨hinit, hlast⟩ := List.append_inj' hlinks rfl
    simp only [StoredRecord.links, SealedRecord.toStored, Ledger.recordOf, List.cons.injEq, Prod.mk.injEq, and_true] at hlast
    obtain ⟨hseq, hprev, hrecord⟩ := hlast
    refine ⟨ledger, hledger, hinit, by rw [hseq, hcount ledger hledger], hprev, recordHash, hrecord, ?_⟩
    rw [hevent, hseq]
    exact hhash
  · rintro ⟨ledger, hledger, hinit, hseq, hprev, recordHash, hrecord, hhash⟩
    rw [hevent, hseq, ← hcount ledger hledger] at hhash
    refine ⟨ledger.commit (ledger.recordOf event record.host_ts recordHash), ?_, ?_⟩
    · rw [hledger]
      exact Ledger.append_ok.mpr ⟨recordHash, hhash, rfl⟩
    · simp [Ledger.commit, Ledger.recordOf, hinit, StoredRecord.links, SealedRecord.toStored, hseq, hprev, hrecord,
        hcount ledger hledger]

-- After some records: the walk is clean exactly where they are a ledger's chain, and
-- then it goes on from that ledger's tail.
structure Walked (P : Primitives) (done : List StoredRecord) (walk : Walk) : Prop where
  index : walk.index = done.length
  clean : NoChainIssue walk.issues ↔ IsLedgerChain P done
  tail : ∀ ledger, Ledger.new.appendAll P (done.filterMap StoredRecord.entry) = .ok ledger →
    done.map StoredRecord.links = (ledger.records.map fun record => record.toStored.links) →
    walk.prevRecomputed = some (.str ledger.tailHash)

theorem verifyRecord_walked {P : Primitives} {inputs : VerifyInputs} {done : List StoredRecord} {walk after : Walk}
    {record : StoredRecord} {event : Json} (hevents : HasEvents done) (hevent : record.event = some event)
    (h : Walked P done walk) (hstep : verifyRecord P inputs walk record = .ok after) :
    Walked P (done ++ [record]) after := by
  obtain ⟨hindex, hclean, hprev⟩ := verifyRecord_clean hstep
  have hlinks (ledger : Ledger) (htail : walk.prevRecomputed = some (.str ledger.tailHash)) (recomputed : JsString) :
      RecordLinks P walk record recomputed ↔
        record.seq = some (.num (.ofNat done.length)) ∧ record.previous_hash = some (.str ledger.tailHash) ∧
          record.record_hash = some (.str recomputed) ∧
          computeRecordHash P record.event record.seq record.host_ts (some (.str ledger.tailHash)) =
            .ok recomputed := by
    constructor
    · rintro ⟨hs, hh, hp, hr⟩
      rw [htail] at hh hp
      rw [h.index] at hs
      exact ⟨strictEq_num_iff.mp hs, strictEq_str_iff.mp hp, strictEq_str_iff.mp hr, hh⟩
    · rintro ⟨hs, hp, hr, hh⟩
      exact ⟨by rw [h.index]; exact strictEq_num_iff.mpr hs, by rw [htail]; exact hh,
        by rw [htail]; exact strictEq_str_iff.mpr hp, strictEq_str_iff.mpr hr⟩
  refine ⟨by rw [hindex, h.index, List.length_append, List.length_singleton], ?_, ?_⟩
  · rw [hclean, h.clean, isLedgerChain_append_singleton hevents hevent]
    constructor
    · rintro ⟨⟨ledger, hledger, hinit⟩, recomputed, hrecord⟩
      obtain ⟨hs, hp, hr, hh⟩ := (hlinks ledger (h.tail ledger hledger hinit) recomputed).mp hrecord
      exact ⟨ledger, hledger, hinit, hs, hp, recomputed, hr, hh⟩
    · rintro ⟨ledger, hledger, hinit, hs, hp, recomputed, hr, hh⟩
      exact ⟨⟨ledger, hledger, hinit⟩, recomputed,
        (hlinks ledger (h.tail ledger hledger hinit) recomputed).mpr ⟨hs, hp, hr, hh⟩⟩
  · intro last hlast hmap
    obtain ⟨ledger, hledger, hinit, hs, hp, recomputed, hr, hh⟩ :=
      (isLedgerChain_append_singleton hevents hevent).mp ⟨last, hlast, hmap⟩
    rw [hprev recomputed ((hlinks ledger (h.tail ledger hledger hinit) recomputed).mpr ⟨hs, hp, hr, hh⟩)]
    have hentry : record.entry = some (event, record.host_ts) := by simp [StoredRecord.entry, hevent]
    rw [List.filterMap_append, List.filterMap_cons_some hentry, List.filterMap_nil,
      Ledger.appendAll_append_singleton, hledger] at hlast
    obtain ⟨recordHash, -, rfl⟩ := Ledger.append_ok.mp hlast
    have hlinks' := hmap
    simp only [Ledger.commit, List.map_append, List.map_singleton] at hlinks'
    obtain ⟨-, htail⟩ := List.append_inj' hlinks' rfl
    simp only [StoredRecord.links, SealedRecord.toStored, Ledger.recordOf, List.cons.injEq, Prod.mk.injEq, and_true] at htail
    rw [← hr, htail.2.2]
    rfl

theorem walked_start (P : Primitives) : Walked P [] Walk.start where
  index := rfl
  clean := ⟨fun _ => isLedgerChain_nil P, fun _ => by simp [NoChainIssue, Walk.start]⟩
  tail := by
    intro ledger hledger _
    obtain rfl := Except.ok.inj hledger
    rfl

theorem walked_all {P : Primitives} {inputs : VerifyInputs} {records : List StoredRecord} {walk : Walk}
    (hevents : HasEvents records) (h : records.foldlM (verifyRecord P inputs) Walk.start = .ok walk) :
    Walked P records walk := by
  refine foldlM_ok_invariant (fun done walk => Walked P done walk) records ?_ (walked_start P) h
  intro done record rest before after hsplit hdone hstep
  obtain ⟨members, hm⟩ := hevents record (by rw [hsplit]; simp)
  exact verifyRecord_walked (fun r hr => hevents r (by rw [hsplit]; simp [hr])) hm hdone hstep

end AuditableMcp
