import AuditableMcp.Library.Each
import AuditableMcp.Sealed
import AuditableMcp.Verify.Readable

-- What the walk finds at each position of a stored ledger, told from the records alone.
namespace AuditableMcp

-- A stored record has the members of a sealed one, and an event that is valid under its
-- own version.
structure ValidRecord (record : StoredRecord) : Prop where
  event : ∃ event, record.event = some event ∧ firstSealedValidationError (some event) = none
  seq : ∃ n, record.seq = some (.num n)
  host_ts : ∃ s, record.host_ts = some (.str s)
  previous_hash : ∃ s, record.previous_hash = some (.str s)
  record_hash : ∃ s, record.record_hash = some (.str s)

-- What the next record is hashed with, as far as it matters to canonicalization: after
-- a record whose hash was recomputed that is one hex text or another.
def nextLink (link : Option Json) (record : StoredRecord) : Option Json :=
  if Canonicalizable (recordPreimage record.event record.seq record.host_ts link) then some (.str GENESIS_HASH)
  else record.record_hash

def expectedLink (before : List StoredRecord) : Option Json := before.foldl nextLink (some (.str GENESIS_HASH))

-- The record can be canonicalized after these.
def Hashable (before : List StoredRecord) (record : StoredRecord) : Prop :=
  Canonicalizable (recordPreimage record.event record.seq record.host_ts (expectedLink before))

def AttemptsUnder (P : Primitives) (key : OperationKey) (before : List StoredRecord) (record : StoredRecord) : Prop :=
  Hashable before record ∧ ∃ event, record.event = some event ∧ isAttempted event = true ∧
    eventOperation P event = .ok (some key)

def FoundOrphaned (P : Primitives) (before : List StoredRecord) (record : StoredRecord) : Prop :=
  Hashable before record ∧ ∃ event, record.event = some event ∧ isAttempted event = false ∧
    Json.isText (event.get Fields.OUTCOME) Outcome.ABORTED = false ∧
    ∃ key, eventOperation P event = .ok (some key) ∧ ¬∃ i, Occurs (AttemptsUnder P key) before i

def NumberedUnder (key : NumberKey) (before : List StoredRecord) (record : StoredRecord) : Prop :=
  Hashable before record ∧ ∃ event, record.event = some event ∧ eventNumber event = some key

def FoundReplayed (before : List StoredRecord) (record : StoredRecord) : Prop :=
  Hashable before record ∧ ∃ event, record.event = some event ∧
    ∃ key, eventNumber event = some key ∧ ∃ i, Occurs (NumberedUnder key) before i

-- Two links no record can be told apart by.
def SameLink (first second : Option Json) : Prop :=
  ∀ event seq hostTs, Canonicalizable (recordPreimage event seq hostTs first) ↔
    Canonicalizable (recordPreimage event seq hostTs second)

theorem sameLink_str {first second : JsString} (hf : LONE_SURROGATE first = false)
    (hs : LONE_SURROGATE second = false) : SameLink (some (.str first)) (some (.str second)) := by
  intro event seq hostTs
  have hmembers (link : JsString) (hlink : LONE_SURROGATE link = false) :
      Canonicalizable (recordPreimage event seq hostTs (some (.str link))) ↔
        Canonicalizable (recordPreimage event seq hostTs none) := by
    have hname : LONE_SURROGATE (JsString.ofString "previous_hash") = false := by decide
    cases event <;> cases seq <;> cases hostTs <;>
      simp [Canonicalizable, recordPreimage, objectOf, hasUnsafeNumber, hasUnsafeNumber.members, hasLoneSurrogate,
        hasLoneSurrogate.members, hlink, hname]
  rw [hmembers first hf, hmembers second hs]

theorem genesis_wellFormed : LONE_SURROGATE GENESIS_HASH = false := by decide

theorem computeRecordHash_cases (P : Primitives) (event seq hostTs link : Option Json) :
    (Canonicalizable (recordPreimage event seq hostTs link) ∧
      ∃ hash, computeRecordHash P event seq hostTs link = .ok hash ∧ LONE_SURROGATE hash = false) ∨
    (¬Canonicalizable (recordPreimage event seq hostTs link) ∧
      ∃ message, computeRecordHash P event seq hostTs link = .error (.canonicalizationError message)) := by
  unfold computeRecordHash
  by_cases hcan : Canonicalizable (recordPreimage event seq hostTs link)
  · rw [canonicalize_of_canonicalizable P hcan]
    exact Or.inl ⟨hcan, _, rfl, sha256Hex_wellFormed P _⟩
  · refine Or.inr ⟨hcan, ?_⟩
    unfold canonicalize
    split
    · exact ⟨_, rfl⟩
    · rename_i hnumber
      split
      · exact ⟨_, rfl⟩
      · rename_i hsurrogate
        exact absurd ⟨by simpa using hnumber, by simpa using hsurrogate⟩ hcan

-- After some records: what the walk has seen and found is what occurs among them.
structure Looked (P : Primitives) (done : List StoredRecord) (walk : Walk) : Prop where
  index : walk.index = done.length
  link : SameLink walk.prevRecomputed (expectedLink done)
  attempted : ∀ key, key ∈ walk.attempted ↔ ∃ i, Occurs (AttemptsUnder P key) done i
  numbered : ∀ key, walk.Numbered key ↔ ∃ i, Occurs (NumberedUnder key) done i
  texts : NumbersText P walk
  orphans : ∀ i, walk.Reported .orphanedOutcome i ↔ Occurs (FoundOrphaned P) done i
  replays : ∀ i, walk.Reported .replayDetected i ↔ Occurs FoundReplayed done i

theorem looked_start (P : Primitives) : Looked P [] Walk.start := by
  refine ⟨rfl, fun _ _ _ => Iff.rfl, ?_, ?_, ?_, ?_, ?_⟩
  · intro key
    have hnone : ¬∃ i, Occurs (AttemptsUnder P key) [] i := fun h => Occurs.nil h.choose_spec
    simpa [Walk.start] using hnone
  · intro key
    have hnone : ¬∃ i, Occurs (NumberedUnder key) [] i := fun h => Occurs.nil h.choose_spec
    simpa [Walk.start, Walk.Numbered] using hnone
  · exact fun key first h => by simp [Walk.start] at h
  · intro i
    have hnone : ¬Occurs (FoundOrphaned P) [] i := Occurs.nil
    simpa [Walk.start, Walk.Reported] using hnone
  · intro i
    have hnone : ¬Occurs FoundReplayed [] i := Occurs.nil
    simpa [Walk.start, Walk.Reported] using hnone

section

variable {P : Primitives} {inputs : VerifyInputs} {done : List StoredRecord} {record : StoredRecord}
  {walk after : Walk} {members : List (JsString × Json)}

theorem expectedLink_append_singleton (done : List StoredRecord) (record : StoredRecord) :
    expectedLink (done ++ [record]) = nextLink (expectedLink done) record := by
  simp [expectedLink]

theorem verifyRecord_looked (hadapter : inputs.adapter = DEFAULT_ADAPTER) (hevent : record.event = some (.obj members))
    {n : JsNum} (hseq : record.seq = some (.num n)) (h : Looked P done walk)
    (hstep : verifyRecord P inputs walk record = .ok after) : Looked P (done ++ [record]) after := by
  have hhashable : Canonicalizable (recordPreimage record.event record.seq record.host_ts walk.prevRecomputed) ↔
      Hashable done record := h.link _ _ _
  rcases computeRecordHash_cases P record.event record.seq record.host_ts walk.prevRecomputed with
    ⟨hcan, recomputed, hhash, hwell⟩ | ⟨hcannot, message, hhash⟩
  · have hread : Hashable done record := hhashable.mp hcan
    obtain ⟨hlearned, hindex, htail⟩ := verifyRecord_learned hadapter hevent hhash hstep
    obtain ⟨operation, hoperation, hattempts, horphans⟩ := hlearned.operation
    have hattempted (key : OperationKey) : AttemptsUnder P key done record ↔
        operation = some key ∧ isAttempted (.obj members) = true := by
      simp [AttemptsUnder, hread, hevent, hoperation, and_comm]
    refine ⟨by rw [hindex, h.index, List.length_append, List.length_singleton], ?_, fun key => ?_, fun key => ?_, ?_,
      fun i => ?_, fun i => ?_⟩
    · rw [htail, expectedLink_append_singleton, nextLink,
        if_pos (show Canonicalizable _ from hread)]
      exact sameLink_str hwell genesis_wellFormed
    · rw [hattempts, h.attempted, Occurs.exists_append_singleton, hattempted]
    · rw [hlearned.numbered (by simp [hseq]), h.numbered, Occurs.exists_append_singleton]
      simp [NumberedUnder, hread, hevent]
    · intro key first hf
      rcases hlearned.first key first hf with hold | hnew
      · exact h.texts key first hold
      · rw [hseq] at hnew
        obtain rfl := Option.some.inj hnew
        exact hasText_num P n
    · rw [horphans, h.orphans, Occurs.append_singleton, h.index]
      simp only [h.attempted, FoundOrphaned, hread, hevent, Option.some.injEq, exists_eq_left', hoperation, true_and,
        Except.ok.injEq]
    · rw [hlearned.replays, h.replays, Occurs.append_singleton, h.index]
      simp only [h.numbered, FoundReplayed, hread, hevent, Option.some.injEq, exists_eq_left', true_and]
  · have hskip : ¬Hashable done record := fun hr => hcannot (hhashable.mpr hr)
    obtain ⟨hattempted, hnumbered, hindex, htail, hreported⟩ := verifyRecord_passes hhash hstep
    refine ⟨by rw [hindex, h.index, List.length_append, List.length_singleton], ?_, fun key => ?_, fun key => ?_, ?_,
      fun i => ?_, fun i => ?_⟩
    · rw [htail, expectedLink_append_singleton, nextLink,
        if_neg (show ¬Canonicalizable _ from hskip)]
      exact fun _ _ _ => Iff.rfl
    · rw [hattempted, h.attempted, Occurs.exists_append_singleton]
      simp [AttemptsUnder, hskip]
    · unfold Walk.Numbered
      rw [hnumbered]
      have := h.numbered key
      unfold Walk.Numbered at this
      rw [this, Occurs.exists_append_singleton]
      simp [NumberedUnder, hskip]
    · unfold NumbersText
      rw [hnumbered]
      exact h.texts
    · rw [hreported _ (by simp [outOfBand, identityKinds]), h.orphans, Occurs.append_singleton]
      simp [FoundOrphaned, hskip]
    · rw [hreported _ (by simp [outOfBand, identityKinds]), h.replays, Occurs.append_singleton]
      simp [FoundReplayed, hskip]

end

section

variable {P : Primitives} {records : List StoredRecord} {anchored : Option JsString}

theorem hasText_of_optional {event : Json} {name : JsString}
    (h : event.get name = none ∨ ∃ s, event.get name = some (.str s)) : HasText P (event.get name) := by
  rcases h with h | ⟨s, h⟩
  · rw [h]
    exact ⟨"undefined", rfl⟩
  · rw [h]
    exact hasText_str P s

theorem isSessionScoped_iff {event : Json} {version : JsString} (h : SealedEvent event version) :
    isSessionScoped event = true ↔ version = SPEC_VERSION := by
  have hcurrent : SPEC_VERSION ∉ EARLIER_SPEC_VERSIONS := by decide
  have hknown : version ∈ EARLIER_SPEC_VERSIONS ∨ version = SPEC_VERSION := by
    have := h.known
    rwa [show KNOWN_SPEC_VERSIONS = EARLIER_SPEC_VERSIONS ++ [SPEC_VERSION] from rfl, List.mem_append,
      List.mem_singleton] at this
  unfold isSessionScoped isEarlierSpecVersion
  rw [h.stated]
  simp only [Bool.not_eq_true', decide_eq_false_iff_not]
  exact ⟨hknown.resolve_left, fun he => by rw [he]; exact hcurrent⟩

theorem SealedEvent.readable {event : Json} {version : JsString} (h : SealedEvent event version) :
    Readable P event := by
  obtain ⟨id, hid⟩ := h.id
  have hsession (hscoped : isSessionScoped event = true) : HasText P (event.get Fields.SESSION_ID) := by
    obtain ⟨session, hs⟩ := h.session (by rw [(isSessionScoped_iff h).mp hscoped]; decide)
    rw [hs]
    exact hasText_str P _
  constructor
  · intro value hvalue _
    rw [hid] at hvalue
    obtain rfl := Option.some.inj hvalue
    refine ⟨?_, hasText_str P _⟩
    split
    · rename_i hscoped
      exact hsession hscoped
    · by_cases hv : version ∈ SESSION_VERSIONS
      · rw [h.noCall hv]
        exact ⟨"undefined", rfl⟩
      · obtain ⟨call, hc⟩ := h.call hv
        rw [hc]
        exact hasText_str P _
  · intro hscoped
    rw [hid]
    exact ⟨hsession hscoped, hasText_str P _, fun _ => hasText_of_optional h.reason⟩

-- A valid record gets through every phase.
theorem verifyRecord_isOk_of_valid {record : StoredRecord} {walk : Walk} (hvalid : ValidRecord record)
    (htexts : NumbersText P walk) : ∃ after, verifyRecord P (.anchored anchored) walk record = .ok after := by
  obtain ⟨event, hevent, hv⟩ := hvalid.event
  obtain ⟨n, hn⟩ := hvalid.seq
  obtain ⟨version, hsealed⟩ := sealedEvent_of_valid hv
  obtain ⟨members, rfl⟩ := hsealed.isObject
  obtain ⟨checked, hchecked, hfields⟩ : ∃ checked, checkSequence P record walk = .ok checked ∧
      checked.prevRecomputed = walk.prevRecomputed ∧ checked.numbered = walk.numbered := by
    unfold checkSequence
    split
    · exact ⟨walk, rfl, rfl, rfl⟩
    · rw [hn]
      obtain ⟨text, htext⟩ := hasText_num P n
      rw [htext]
      exact ⟨_, rfl, rfl, rfl⟩
  refine bind_isOk.mpr ⟨checked, hchecked, ?_⟩
  rcases computeRecordHash_cases P record.event record.seq record.host_ts checked.prevRecomputed with
    ⟨-, recomputed, hhash, -⟩ | ⟨-, message, hhash⟩
  · simp only [hhash]
    refine (checkHashable_isOk anchored recomputed hevent ?_).mpr hsealed.readable.correlation
    intro key first hf
    rw [hfields.2] at hf
    exact htexts key first hf
  · simp only [hhash]
    obtain ⟨last, hl⟩ := checkCountersignature_anchored (P := P) anchored record
      (checked.report record .schemaInvalid (.text message)) false
    exact bind_isOk.mpr ⟨_, rfl, bind_isOk.mpr ⟨last, hl, _, rfl⟩⟩

theorem looked_next {inputs : VerifyInputs} (hadapter : inputs.adapter = DEFAULT_ADAPTER) {done : List StoredRecord}
    {record : StoredRecord} {walk after : Walk} (hvalid : ValidRecord record) (h : Looked P done walk)
    (hstep : verifyRecord P inputs walk record = .ok after) : Looked P (done ++ [record]) after := by
  obtain ⟨event, hevent, hv⟩ := hvalid.event
  obtain ⟨version, hsealed⟩ := sealedEvent_of_valid hv
  obtain ⟨members, rfl⟩ := hsealed.isObject
  obtain ⟨n, hn⟩ := hvalid.seq
  exact verifyRecord_looked hadapter hevent hn h hstep

-- Over valid records the walk knows what occurs among them, and by itself it always ends.
theorem looked_all {inputs : VerifyInputs} (hadapter : inputs.adapter = DEFAULT_ADAPTER)
    (hvalid : ∀ record ∈ records, ValidRecord record) {walk : Walk}
    (h : records.foldlM (verifyRecord P inputs) Walk.start = .ok walk) : Looked P records walk :=
  foldlM_ok_invariant (Looked P) records
    (fun _ record _ _ _ hsplit hdone hstep => looked_next hadapter (hvalid record (by simp [hsplit])) hdone hstep)
    (looked_start P) h

theorem walk_ends (anchored : Option JsString) (hvalid : ∀ record ∈ records, ValidRecord record) :
    ∃ walk, records.foldlM (verifyRecord P (.anchored anchored)) Walk.start = .ok walk :=
  (foldlM_isOk_iff (f := verifyRecord P (.anchored anchored)) (Looked P) (fun _ => True) records
    (fun _ record _ _ hsplit hdone =>
      ⟨fun _ => trivial, fun _ => verifyRecord_isOk_of_valid (hvalid record (by simp [hsplit])) hdone.texts⟩)
    (fun _ record _ _ _ hsplit hdone hstep => looked_next rfl (hvalid record (by simp [hsplit])) hdone hstep)
    (looked_start P)).mpr fun _ _ => trivial

theorem tail_text (hvalid : ∀ record ∈ records, ValidRecord record) {walk : Walk}
    (h : records.foldlM (verifyRecord P (.anchored anchored)) Walk.start = .ok walk) :
    ∃ text, walk.prevRecomputed = some (.str text) := by
  refine foldlM_ok_invariant (fun _ walk => ∃ text, walk.prevRecomputed = some (.str text)) records ?_
    ⟨GENESIS_HASH, rfl⟩ h
  intro done record rest before after hsplit _ hstep
  have hrecord := hvalid record (by simp [hsplit])
  obtain ⟨event, hevent, hv⟩ := hrecord.event
  obtain ⟨version, hsealed⟩ := sealedEvent_of_valid hv
  obtain ⟨members, rfl⟩ := hsealed.isObject
  rcases computeRecordHash_cases P record.event record.seq record.host_ts before.prevRecomputed with
    ⟨-, recomputed, hhash, -⟩ | ⟨-, message, hhash⟩
  · exact ⟨recomputed, (verifyRecord_learned (adapter_anchored anchored) hevent hhash hstep).2.2⟩
  · obtain ⟨text, ht⟩ := hrecord.record_hash
    obtain ⟨-, -, -, htail, -⟩ := verifyRecord_passes hhash hstep
    exact ⟨text, by rw [htail, ht]⟩

theorem verifyChain_isOk_of_valid (anchored : Option JsString) (hvalid : ∀ record ∈ records, ValidRecord record) :
    ∃ report, verifyChain P records (.anchored anchored) = .ok report := by
  obtain ⟨walk, hw⟩ := walk_ends (P := P) anchored hvalid
  obtain ⟨gaps, hg⟩ : ∃ gaps, unaccountedSignerSeq P (records.map StoredRecord.event) = .ok gaps := by
    refine unaccountedSignerSeq_isOk.mpr fun event he _ => ?_
    obtain ⟨record, hr, hevent⟩ := List.mem_map.mp he
    obtain ⟨own, hown, hv⟩ := (hvalid record hr).event
    obtain rfl : own = event := Option.some.inj (by rw [← hown, hevent])
    obtain ⟨version, hsealed⟩ := sealedEvent_of_valid hv
    exact hsealed.readable.accounting
  obtain ⟨text, htail⟩ := tail_text hvalid hw
  obtain ⟨digest, hd⟩ := digestIssues_isOk (P := P) anchored text
  rw [← htail] at hd
  exact verifyChain_of_phases hw hg hd

end

end AuditableMcp
