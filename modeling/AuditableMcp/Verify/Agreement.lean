import AuditableMcp.Host.Accepted
import AuditableMcp.Verify.TamperEvidence

-- The chain a host stores is one the verifier finds nothing about.
namespace AuditableMcp

theorem isLedgerChain_toStored {P : Primitives} {chain : List SealedRecord} (h : IsChain P chain) :
    ∃ ledger, Ledger.new.appendAll P ((chain.map SealedRecord.toStored).filterMap StoredRecord.entry) = .ok ledger ∧
      (chain.map SealedRecord.toStored).map StoredRecord.links =
        (ledger.records.map fun record => record.toStored.links) ∧
      ledger.count = chain.length ∧ ledger.tailHash = tailHashOf chain := by
  induction chain using List.reverseRecOn with
  | nil => exact ⟨Ledger.new, rfl, rfl, rfl, rfl⟩
  | append_singleton chain record ih =>
      obtain ⟨hbefore, hseq, hprev, hhash⟩ := (isChain_append_singleton P chain record).mp h
      obtain ⟨ledger, hledger, hlinks, hcount, htail⟩ := ih hbefore
      have happend : ledger.append P record.event record.host_ts =
          .ok (ledger.commit (ledger.recordOf record.event record.host_ts record.record_hash)) := by
        refine Ledger.append_ok.mpr ⟨record.record_hash, ?_, rfl⟩
        rw [hcount, htail]
        exact linkHash_eq_some.mp hhash
      refine ⟨ledger.commit (ledger.recordOf record.event record.host_ts record.record_hash), ?_, ?_,
        by simp [Ledger.commit, hcount], by simp [Ledger.commit, Ledger.recordOf]⟩
      · rw [List.map_append, List.filterMap_append, List.map_singleton,
          List.filterMap_cons_some (show record.toStored.entry = some (record.event, record.host_ts) from rfl),
          List.filterMap_nil, Ledger.appendAll_append_singleton, hledger]
        exact happend
      · simp [hlinks, Ledger.commit, Ledger.recordOf, StoredRecord.links, SealedRecord.toStored, hseq, hprev, hcount,
          htail]

section

variable {P : Primitives} {event : Json}

theorem CurrentEvent.scoped (h : CurrentEvent event) : isSessionScoped event = true := by
  unfold isSessionScoped
  rw [h.version]
  rfl

theorem CurrentEvent.readable (h : CurrentEvent event) : Readable P event := by
  obtain ⟨session, hsession⟩ := h.session
  obtain ⟨id, hid⟩ := h.id
  constructor
  · intro value hvalue _
    rw [hid] at hvalue
    obtain rfl := Option.some.inj hvalue
    rw [if_pos h.scoped, hsession]
    exact ⟨hasText_str P _, hasText_str P _⟩
  · intro _
    rw [hsession, hid]
    refine ⟨hasText_str P _, hasText_str P _, fun _ => ?_⟩
    rcases h.reason with hr | ⟨s, hr⟩
    · rw [hr]
      exact ⟨"undefined", rfl⟩
    · rw [hr]
      exact hasText_str P s

-- The operation a current event is correlated under.
def currentOperation (sessionId id : JsString) : OperationKey := .session "string" sessionId "string" id

theorem CurrentEvent.operation (h : CurrentEvent event) {sessionId id : JsString}
    (hsession : event.get Fields.SESSION_ID = some (.str sessionId)) (hid : event.get Fields.ID = some (.str id)) :
    eventOperation P event = .ok (some (currentOperation sessionId id)) := by
  unfold eventOperation
  simp only [hid, h.scoped, ite_true, hsession, operationKey, stringOfOption, stringOf, bind, Except.bind, pure,
    Except.pure, typeOf]
  rfl

theorem CurrentEvent.sealed_valid (h : CurrentEvent event) (hvalid : firstValidationError (some event) = none) :
    firstSealedValidationError (some event) = none := by
  unfold firstSealedValidationError
  simp only [Option.bind_some, h.version]
  exact hvalid

end

-- After the records of a chain: every attempt is known to the walk, and no outcome was
-- found without one.
structure Matched (done : List SealedRecord) (walk : Walk) : Prop where
  attempts : ∀ record ∈ done, isAttempted record.event = true → ∀ sessionId, inSession record sessionId →
    currentOperation sessionId (eventId record.event) ∈ walk.attempted
  orphans : ∀ issue ∈ walk.issues, issue.kind ≠ .orphanedOutcome

section

variable {P : Primitives} {anchored : Option JsString} {done rest : List SealedRecord} {record : SealedRecord}
  {walk after : Walk}

theorem hasEvents_toStored {chain : List SealedRecord} (h : ∀ record ∈ chain, Admissible record.event) :
    HasEvents (chain.map SealedRecord.toStored) := by
  intro stored hs
  obtain ⟨record, hr, rfl⟩ := List.mem_map.mp hs
  obtain ⟨members, hm⟩ := (h record hr).current.isObject
  exact ⟨members, by rw [← hm]; rfl⟩

theorem recordLinks_toStored {chain : List SealedRecord} (hsound : SoundChain P chain)
    (hsplit : chain = done ++ record :: rest) (h : Walked P (done.map SealedRecord.toStored) walk) :
    ∃ recomputed, RecordLinks P walk record.toStored recomputed := by
  have hevents := hasEvents_toStored hsound.admissible
  obtain ⟨ledger, hledger, hlinks, -, -⟩ := isLedgerChain_toStored hsound.linked
  have hmap : chain.map SealedRecord.toStored =
      (done.map SealedRecord.toStored ++ [record.toStored]) ++ rest.map SealedRecord.toStored := by simp [hsplit]
  have hchain : IsLedgerChain P (chain.map SealedRecord.toStored) := ⟨ledger, hledger, hlinks⟩
  rw [hmap] at hchain hevents
  obtain ⟨members, hm⟩ := hevents record.toStored (by simp)
  exact recordLinks_of_chain (fun r hr => hevents r (by simp [hr])) hm (isLedgerChain_before _ hevents hchain) h

theorem matched_verifyRecord (hadm : Admissible record.event) (hcorrelated : CorrelatedWith done record)
    {recomputed : JsString} (hlinks : RecordLinks P walk record.toStored recomputed) (h : Matched done walk)
    (hstep : verifyRecord P (.anchored anchored) walk record.toStored = .ok after) :
    Matched (done ++ [record]) after := by
  obtain ⟨members, hm⟩ := hadm.current.isObject
  obtain ⟨sessionId, hsession⟩ := hadm.current.session
  have hid := hadm.eventId_eq
  have hlearned := (verifyRecord_learned (adapter_anchored anchored)
    (show record.toStored.event = some (.obj members) by rw [← hm]; rfl) hlinks.hash hstep).1
  rw [← hm] at hlearned
  obtain ⟨operation, hoperation, hattempts, horphans⟩ := hlearned.operation
  rw [hadm.current.operation hsession hid] at hoperation
  obtain rfl := Except.ok.inj hoperation
  obtain ⟨new, hnew, hn⟩ := verifyRecord_finds hstep
  constructor
  · intro other ho hkind sid hin
    rw [hattempts]
    rcases List.mem_append.mp ho with hmem | hmem
    · exact Or.inl (h.attempts other hmem hkind sid hin)
    · rw [List.mem_singleton.mp hmem] at hkind hin ⊢
      obtain rfl := inSession_unique hsession hin
      exact Or.inr ⟨rfl, hkind⟩
  · intro issue hi hkind
    have hbefore (i : Nat) : ¬walk.Reported .orphanedOutcome i := fun ⟨other, ho, hc⟩ => h.orphans other ho hc.1
    rw [hnew] at hi
    rcases List.mem_append.mp hi with hmem | hmem
    · exact h.orphans issue hmem hkind
    · have hreported : after.Reported .orphanedOutcome walk.index :=
        ⟨issue, by rw [hnew]; exact hi, hkind, _, (hn issue hmem).2⟩
      rcases (horphans walk.index).mp hreported with hold | ⟨-, houtcome, hnot, key, hkey, habsent⟩
      · exact hbefore _ hold
      · -- The attempt the host correlated it with is one the walk has seen.
        obtain ⟨sid, hin, attempt, ha, hina, hattempt, hsame⟩ := hcorrelated houtcome hnot
        obtain rfl := inSession_unique hsession hin
        obtain rfl := Option.some.inj hkey
        rw [← hsame] at habsent
        exact habsent (h.attempts attempt ha hattempt sessionId hina)

-- The walk over a host's chain.
theorem matched_all {chain : List SealedRecord} (hsound : SoundChain P chain) (hcorrelated : Each CorrelatedWith chain)
    (h : (chain.map SealedRecord.toStored).foldlM (verifyRecord P (.anchored anchored)) Walk.start = .ok walk) :
    Matched chain walk := by
  rw [List.foldlM_map] at h
  refine (foldlM_ok_invariant (fun done walk => Walked P (done.map SealedRecord.toStored) walk ∧ Matched done walk)
    chain ?_ ⟨walked_start P, ⟨by simp, by simp [Walk.start]⟩⟩ h).2
  rintro done record rest before after hsplit ⟨hwalked, hmatched⟩ hstep
  have hadm : Admissible record.event := hsound.admissible record (by simp [hsplit])
  obtain ⟨recomputed, hlinks⟩ := recordLinks_toStored hsound hsplit hwalked
  have hlast : CorrelatedWith done record := by
    have := hcorrelated done.length record (by simp [hsplit])
    rwa [hsplit, List.take_left'] at this
    rfl
  refine ⟨?_, matched_verifyRecord hadm hlast hlinks hmatched hstep⟩
  have hevents := hasEvents_toStored hsound.admissible
  rw [List.map_append]
  have hdone : HasEvents (done.map SealedRecord.toStored) := by
    intro r hr
    refine hevents r ?_
    rw [hsplit, List.map_append]
    exact List.mem_append_left _ hr
  exact verifyRecord_walked hdone rfl hwalked hstep

-- No record of the current version fails the checks of its structure or of the order of versions.
theorem checkVersion_current (anchored : Option JsString) (hadm : Admissible record.event) (reported : List IssueSeq)
    {versions : VersionWalk} (hlatest : versions.latest ≤ KNOWN_SPEC_VERSIONS.length) :
    ∃ next, checkVersion P (.anchored anchored) reported versions record.toStored = .ok next ∧
      next.issues = versions.issues ∧ next.latest ≤ KNOWN_SPEC_VERSIONS.length := by
  obtain ⟨members, hm⟩ := hadm.current.isObject
  have hversion : ((innerObject (some record.event)).bind fun event => event.get Fields.SPEC_VERSION) =
      some (.str SPEC_VERSION) := by
    rw [hm, innerObject_obj, Option.bind_some, ← hm]
    exact hadm.current.version
  have hrank : specVersionRank (some (.str SPEC_VERSION)) = some 4 := by decide
  have hstructural : structuralIssue P versions.latest (some record.event) = .ok none := by
    unfold structuralIssue
    simp only [hversion, hadm.current.sealed_valid hadm.valid, hrank]
    rw [if_neg]
    have : KNOWN_SPEC_VERSIONS.length = 5 := rfl
    omega
  have hstep : checkVersion P (.anchored anchored) reported versions record.toStored =
      .ok { versions with index := versions.index + 1, latest := max versions.latest 5 } := by
    unfold checkVersion
    simp only [show (VerifyInputs.anchored anchored).adapter.eventOf record.toStored.event = .ok (some record.event)
      from rfl, bind, Except.bind, hstructural, hversion, hrank]
    rfl
  refine ⟨_, hstep, rfl, ?_⟩
  have : KNOWN_SPEC_VERSIONS.length = 5 := rfl
  simp only
  omega

theorem checkVersions_current (anchored : Option JsString) {chain : List SealedRecord}
    (hadm : ∀ record ∈ chain, Admissible record.event)
    (reported : List IssueSeq) (versions : VersionWalk) (hlatest : versions.latest ≤ KNOWN_SPEC_VERSIONS.length) :
    ∃ last, (chain.map SealedRecord.toStored).foldlM (checkVersion P (.anchored anchored) reported) versions =
      .ok last ∧ last.issues = versions.issues := by
  induction chain generalizing versions with
  | nil => exact ⟨versions, rfl, rfl⟩
  | cons record rest ih =>
      obtain ⟨next, hnext, hissues, hl⟩ := checkVersion_current (P := P) anchored
        (hadm record (by simp)) reported hlatest
      obtain ⟨last, hlast, hsame⟩ := ih (fun r hr => hadm r (by simp [hr])) next hl
      refine ⟨last, ?_, by rw [hsame, hissues]⟩
      rw [List.map_cons, List.foldlM_cons, hnext]
      exact hlast

end

-- What the host is held to of the verifier's findings.
def hostKinds : List Tier1Code := [.seqGap, .recordHashMismatch, .digestMismatch, .schemaInvalid, .orphanedOutcome]

-- The digest a verifier can anchor to: none while an append is in doubt.
def AuditHost.anchor (host : AuditHost) : Option JsString :=
  if host.tailUncertain then none else some host.ledger.digest

theorem verifyLedger_sound {P : Primitives} {chain : List SealedRecord} {anchored : Option JsString}
    (hsound : SoundChain P chain) (hcorrelated : Each CorrelatedWith chain)
    (hanchored : ∀ digest, anchored = some digest → digest = tailHashOf chain) :
    ∃ report, verifyLedger P (chain.map SealedRecord.toStored) (.anchored anchored) = .ok report ∧
      ∀ issue ∈ report.issues, issue.kind ∉ hostKinds := by
  have hevents := hasEvents_toStored hsound.admissible
  obtain ⟨ledger, hledger, hlinks, -, htail⟩ := isLedgerChain_toStored hsound.linked
  have hchain : IsLedgerChain P (chain.map SealedRecord.toStored) := ⟨ledger, hledger, hlinks⟩
  have hreadable : ∀ stored ∈ chain.map SealedRecord.toStored, ∀ event, stored.event = some event →
      Readable P event := by
    intro stored hs event he
    obtain ⟨record, hr, rfl⟩ := List.mem_map.mp hs
    obtain rfl := Option.some.inj he
    exact (hsound.admissible record hr).current.readable
  obtain ⟨report, hreport⟩ := (verifyChain_isOk anchored hevents hchain).mpr hreadable
  have hclean := (noChainIssue_report hevents hreport).mpr hchain
  obtain ⟨walk, events, gaps, digest, hv⟩ := verifyChain_verified hreport
  have hmatched := matched_all hsound hcorrelated hv.walked
  obtain ⟨hkinds, hnil⟩ := digestIssues_kind hv.compared
  have hdigest : digest = [] := by
    refine hnil.mpr fun anchor ha => ?_
    rw [(walked_all hevents hv.walked).tail ledger hledger hlinks, htail, hanchored anchor ha]
  obtain ⟨versions, hversions, hissues⟩ := checkVersions_current (P := P) anchored hsound.admissible
    ((report.issues.filter fun issue => issue.kind = .schemaInvalid).map VerifyIssue.seq) ⟨0, 0, []⟩ (Nat.zero_le _)
  refine ⟨report, ?_, ?_⟩
  · unfold verifyLedger
    simp only [hreport, bind, Except.bind, hversions, hissues]
    rfl
  · intro issue hi
    have hc := hclean issue hi
    rw [hv.issues, hdigest, List.append_nil] at hi
    have hothers : issue.kind ≠ .digestMismatch ∧ issue.kind ≠ .orphanedOutcome := by
      rcases List.mem_append.mp hi with hw | hg
      · have hkind := walk_kinds hv.walked issue hw
        refine ⟨fun he => ?_, hmatched.orphans issue hw⟩
        rw [he] at hkind
        simp [walkKinds, besideChain, besideSignature, identityKinds] at hkind
      · obtain ⟨gap, -, rfl⟩ := List.mem_map.mp hg
        simp [gapIssue]
    simp only [chainKinds, hostKinds, List.mem_cons, List.not_mem_nil, or_false, not_or] at hc ⊢
    exact ⟨hc.1, hc.2.1, hothers.1, hc.2.2, hothers.2⟩

-- Host and verifier agree on every run, over the chain as it is stored, whatever failed
-- on the way.
theorem host_and_verifier_agree {P : Primitives} (hjcs : JcsFaithful P) (config : HostConfig) (calls : List Call) :
    let w := run P (World.new config) calls
    ∃ report, verifyLedger P (w.chain.map SealedRecord.toStored) (.anchored w.host.anchor) = .ok report ∧
      ∀ issue ∈ report.issues, issue.kind ∉ hostKinds := by
  intro w
  obtain ⟨committed, pending, hsound⟩ := run_sound (sound_new P config) calls
  refine verifyLedger_sound hsound.soundChain (run_correlated hjcs config calls) fun digest ha => ?_
  unfold AuditHost.anchor at ha
  split at ha
  · cases ha
  · rename_i hknown
    obtain ⟨-, hchain⟩ := hsound.settled fun _ => by simpa using hknown
    rw [← Option.some.inj ha, Ledger.digest, hsound.tailHash, hchain]

theorem landedRun_agreed :
    let w := run Reference.primitives (World.new (Reference.tenant .L1)) landedRun
    ∃ report, verifyLedger Reference.primitives (w.chain.map SealedRecord.toStored) (.anchored w.host.anchor) =
        .ok report ∧ ∀ issue ∈ report.issues, issue.kind ∉ hostKinds :=
  host_and_verifier_agree Reference.primitives_faithful (Reference.tenant .L1) landedRun

end AuditableMcp
