import AuditableMcp.Reference.Events
import AuditableMcp.Reference.Primitives
import AuditableMcp.Validity
import AuditableMcp.Verify.Readable

namespace AuditableMcp

-- Two records that differ at most in the order in which members are written.
structure Agree (first second : StoredRecord) : Prop where
  event : Json.Same first.event second.event
  seq : first.seq = second.seq
  host_ts : Json.Same first.host_ts second.host_ts
  previous_hash : first.previous_hash = second.previous_hash
  record_hash : first.record_hash = second.record_hash

section Preimages

variable (event seq hostTs previousHash : Option Json)

theorem recordPreimage_event : (recordPreimage event seq hostTs previousHash).get "event" = event := by
  cases event <;> cases seq <;> cases hostTs <;> cases previousHash <;> rfl

theorem recordPreimage_host_ts : (recordPreimage event seq hostTs previousHash).get "host_ts" = hostTs := by
  cases event <;> cases seq <;> cases hostTs <;> cases previousHash <;> rfl

theorem recordPreimage_previous_hash :
    (recordPreimage event seq hostTs previousHash).get "previous_hash" = previousHash := by
  cases event <;> cases seq <;> cases hostTs <;> cases previousHash <;> rfl

theorem recordPreimage_seq : (recordPreimage event seq hostTs previousHash).get "seq" = seq := by
  cases event <;> cases seq <;> cases hostTs <;> cases previousHash <;> rfl

end Preimages

theorem same_num {n m : Nat} (h : Json.Same (some (.num (.ofNat n))) (some (.num (.ofNat m)))) : n = m := by
  simpa [Json.Same, Json.canon, JsNum.ofNat] using h

theorem same_str {a b : JsString} (h : Json.Same (some (.str a)) (some (.str b))) : a = b := by
  simpa [Json.Same, Json.canon] using h

-- No two preimages with different canonical forms have one hash, and none has the
-- hash a chain starts from.
structure CollisionFree (P : Primitives) : Prop where
  free : ∀ event seq hostTs previousHash event' seq' hostTs' previousHash' recordHash,
    computeRecordHash P event seq hostTs previousHash = .ok recordHash →
    computeRecordHash P event' seq' hostTs' previousHash' = .ok recordHash →
    canonicalize P (recordPreimage event seq hostTs previousHash) =
      canonicalize P (recordPreimage event' seq' hostTs' previousHash')
  genesis : ∀ event seq hostTs previousHash, computeRecordHash P event seq hostTs previousHash ≠ .ok GENESIS_HASH

theorem linkHash_free {P : Primitives} (hjcs : JcsFaithful P) (hfree : CollisionFree P) (n : Nat) (prev : JsString)
    (body : Json × Option Json) (n' : Nat) (prev' : JsString) (body' : Json × Option Json) (recordHash : JsString)
    (h : linkHash P n prev body = some recordHash) (h' : linkHash P n' prev' body' = some recordHash) :
    n = n' ∧ prev = prev' ∧ body.1.canon = body'.1.canon ∧ Json.Same body.2 body'.2 := by
  rw [linkHash_eq_some] at h h'
  have htexts := hfree.free _ _ _ _ _ _ _ _ _ h h'
  obtain ⟨text, htext, -⟩ := bind_ok h
  obtain ⟨text', htext', -⟩ := bind_ok h'
  have hcanon := (canonicalize_eq_iff hjcs (canonicalizable_of_ok htext).1 (canonicalizable_of_ok htext').1).mp htexts
  have hget := Json.same_get hcanon
  have hseq := hget "seq"
  have hprev := hget "previous_hash"
  have hevent := hget "event"
  have hts := hget "host_ts"
  rw [recordPreimage_seq, recordPreimage_seq] at hseq
  rw [recordPreimage_previous_hash, recordPreimage_previous_hash] at hprev
  rw [recordPreimage_event, recordPreimage_event] at hevent
  rw [recordPreimage_host_ts, recordPreimage_host_ts] at hts
  exact ⟨same_num hseq, same_str hprev, by simpa [Json.Same] using hevent, hts⟩

-- The five members the hash covers or is.
def StoredRecord.core (record : StoredRecord) :
    Option Json × Option Json × Option Json × Option Json × Option Json :=
  (record.event, record.host_ts, record.links)

theorem isLedgerChain_core {P : Primitives} {records : List StoredRecord} (hevents : HasEvents records)
    {ledger : Ledger} (hledger : Ledger.new.appendAll P (records.filterMap StoredRecord.entry) = .ok ledger)
    (hlinks : records.map StoredRecord.links = ledger.records.map fun record => record.toStored.links) :
    records.map StoredRecord.core = ledger.records.map fun record => record.toStored.core := by
  have hentries := (appendAll_isChain _ hledger).2.2.2
  clear hledger
  generalize ledger.records = sealed at hlinks hentries ⊢
  induction records generalizing sealed with
  | nil => cases sealed <;> simp_all
  | cons record rest ih =>
      obtain ⟨members, hm⟩ := hevents record (by simp)
      have hentry : record.entry = some (.obj members, record.host_ts) := by simp [StoredRecord.entry, hm]
      cases sealed with
      | nil => simp at hlinks
      | cons first others =>
          rw [List.filterMap_cons_some hentry] at hentries
          simp only [List.map_cons, List.cons.injEq, Prod.mk.injEq] at hlinks hentries ⊢
          refine ⟨?_, ih (fun r hr => hevents r (by simp [hr])) others hlinks.2 hentries.2⟩
          rw [StoredRecord.core, StoredRecord.core, hlinks.1]
          simp [SealedRecord.toStored, hm, hentries.1]

-- Two ledger chains with one tail agree record by record.
theorem agree_of_tail_eq {P : Primitives} (hjcs : JcsFaithful P) (hfree : CollisionFree P)
    {first second : List StoredRecord} {l₁ l₂ : Ledger} (hfirst : HasEvents first) (hsecond : HasEvents second)
    (h₁ : Ledger.new.appendAll P (first.filterMap StoredRecord.entry) = .ok l₁)
    (h₂ : Ledger.new.appendAll P (second.filterMap StoredRecord.entry) = .ok l₂)
    (hlinks₁ : first.map StoredRecord.links = l₁.records.map fun record => record.toStored.links)
    (hlinks₂ : second.map StoredRecord.links = l₂.records.map fun record => record.toStored.links)
    (htail : l₁.tailHash = l₂.tailHash) : List.Forall₂ Agree first second := by
  obtain ⟨hc₁, -, ht₁, -⟩ := appendAll_isChain _ h₁
  obtain ⟨hc₂, -, ht₂, -⟩ := appendAll_isChain _ h₂
  have hlinked := HashChain.forall₂_of_tip_eq
    (fun (a b : Json × Option Json) => a.1.canon = b.1.canon ∧ Json.Same a.2 b.2)
    (fun n p b he => hfree.genesis _ _ _ _ (linkHash_eq_some.mp he))
    (linkHash_free hjcs hfree) _ _ hc₁.linked hc₂.linked
    (show HashChain.tip GENESIS_HASH (l₁.records.map SealedRecord.link) =
        HashChain.tip GENESIS_HASH (l₂.records.map SealedRecord.link) from by
      rw [← tailHashOf, ← tailHashOf, ← ht₁, ← ht₂, htail])
  have hsealed : List.Forall₂ (fun a b : SealedRecord => a.seq = b.seq ∧ a.event.canon = b.event.canon ∧
      Json.Same a.host_ts b.host_ts ∧ a.previous_hash = b.previous_hash ∧ a.record_hash = b.record_hash)
      l₁.records l₂.records := by
    rw [List.forall₂_map_left_iff, List.forall₂_map_right_iff] at hlinked
    refine List.forall₂_iff_get.mpr ⟨hlinked.length_eq, fun i hi₁ hi₂ => ?_⟩
    obtain ⟨⟨hevent, hts⟩, hprev, hhash⟩ := (List.forall₂_iff_get.mp hlinked).2 i hi₁ hi₂
    have hs₁ := hc₁.seq i _ (List.getElem?_eq_getElem hi₁)
    have hs₂ := hc₂.seq i _ (List.getElem?_eq_getElem hi₂)
    exact ⟨by simp [hs₁, hs₂], hevent, hts, hprev, hhash⟩
  have hcore : List.Forall₂ (fun a b : Option Json × Option Json × Option Json × Option Json × Option Json =>
      Json.Same a.1 b.1 ∧ Json.Same a.2.1 b.2.1 ∧ a.2.2 = b.2.2)
      (first.map StoredRecord.core) (second.map StoredRecord.core) := by
    rw [isLedgerChain_core hfirst h₁ hlinks₁, isLedgerChain_core hsecond h₂ hlinks₂,
      List.forall₂_map_left_iff, List.forall₂_map_right_iff]
    refine hsealed.imp fun a b h => ?_
    obtain ⟨hseq, hevent, hts, hprev, hhash⟩ := h
    refine ⟨by simp [StoredRecord.core, SealedRecord.toStored, Json.Same, hevent], hts, ?_⟩
    simp [StoredRecord.core, StoredRecord.links, SealedRecord.toStored, hseq, hprev, hhash]
  rw [List.forall₂_map_left_iff, List.forall₂_map_right_iff] at hcore
  refine hcore.imp fun a b h => ?_
  obtain ⟨hevent, hts, hlinks⟩ := h
  simp only [StoredRecord.core, StoredRecord.links, Prod.mk.injEq] at hevent hts hlinks
  exact ⟨hevent, hlinks.1, hts, hlinks.2.1, hlinks.2.2⟩

-- The verifier gives a report, and no finding of it is about the chain.
def Passes (P : Primitives) (records : List StoredRecord) (anchoredDigest : Option JsString) : Prop :=
  ∃ report, verifyChain P records (.anchored anchoredDigest) = .ok report ∧ NoChainIssue report.issues

def AllReadable (P : Primitives) (records : List StoredRecord) : Prop :=
  ∀ record ∈ records, ∀ event, record.event = some event → Readable P event

-- Beside the walk's own findings a report holds none about the chain.
theorem noChainIssue_report {P : Primitives} {records : List StoredRecord} {inputs : VerifyInputs}
    {report : VerifyReport} (hevents : HasEvents records) (h : verifyChain P records inputs = .ok report) :
    NoChainIssue report.issues ↔ IsLedgerChain P records := by
  obtain ⟨walk, events, gaps, digest, hv⟩ := verifyChain_verified h
  have hgaps : NoChainIssue (gaps.map (gapIssue P)) := by
    intro issue hi
    obtain ⟨gap, -, rfl⟩ := List.mem_map.mp hi
    simp [gapIssue, chainKinds]
  have hdigest : NoChainIssue digest := by
    intro issue hi
    rw [((digestIssues_kind hv.compared).1 issue hi).1]
    simp [chainKinds]
  rw [hv.issues, noChainIssue_append, noChainIssue_append, (walked_all hevents hv.walked).clean]
  exact ⟨fun h => h.1.1, fun h => ⟨⟨h, hgaps⟩, hdigest⟩⟩

theorem passes_iff {P : Primitives} {records : List StoredRecord} (hevents : HasEvents records)
    (anchoredDigest : Option JsString) :
    Passes P records anchoredDigest ↔ IsLedgerChain P records ∧ AllReadable P records := by
  constructor
  · rintro ⟨report, h, hclean⟩
    have hchain := (noChainIssue_report hevents h).mp hclean
    exact ⟨hchain, (verifyChain_isOk anchoredDigest hevents hchain).mp ⟨report, h⟩⟩
  · rintro ⟨hchain, hall⟩
    obtain ⟨report, h⟩ := (verifyChain_isOk anchoredDigest hevents hchain).mpr hall
    exact ⟨report, h, (noChainIssue_report hevents h).mpr hchain⟩

-- A chain that passes against an anchored digest ends in it.
theorem tail_anchored {P : Primitives} {records : List StoredRecord} {anchored : JsString} {report : VerifyReport}
    (hevents : HasEvents records) (h : verifyChain P records (.anchored (some anchored)) = .ok report)
    (hclean : NoChainIssue report.issues) (hdigest : ∀ issue ∈ report.issues, issue.kind ≠ .digestMismatch) :
    ∃ ledger, Ledger.new.appendAll P (records.filterMap StoredRecord.entry) = .ok ledger ∧
      records.map StoredRecord.links = (ledger.records.map fun record => record.toStored.links) ∧
      ledger.tailHash = anchored := by
  obtain ⟨walk, events, gaps, digest, hv⟩ := verifyChain_verified h
  obtain ⟨ledger, hledger, hlinks⟩ := (noChainIssue_report hevents h).mp hclean
  have htail := (walked_all hevents hv.walked).tail ledger hledger hlinks
  obtain ⟨hkinds, hnil⟩ := digestIssues_kind hv.compared
  have hnone : digest = [] := by
    rw [List.eq_nil_iff_forall_not_mem]
    intro issue hi
    exact hdigest issue (by rw [hv.issues]; simp [hi]) (hkinds issue hi).1
  have hend := hnil.mp hnone anchored rfl
  rw [htail] at hend
  exact ⟨ledger, hledger, hlinks, by simpa using hend⟩

section

open Reference

theorem distinctOn_collisionFree {members : List (JsString × Json)}
    (hascii : ∀ c ∈ (jcs (.obj members)).units, c.toNat < 0x80)
    (hgenesis : bytesToHex (Sha256.sha256 (encodeUtf8 (jcs (.obj members)))) ≠ GENESIS_HASH) :
    CollisionFree (distinctOn (.obj members)) := by
  have htext (value : Json) := escapedJcs_ascii hascii value
  constructor
  · intro event seq hostTs previousHash event' seq' hostTs' previousHash' recordHash h h'
    obtain ⟨text, htext₁, h⟩ := bind_ok h
    obtain ⟨text', htext₂, h'⟩ := bind_ok h'
    rw [htext₁, htext₂]
    have h₁ := (canonicalizable_of_ok htext₁).2
    have h₂ := (canonicalizable_of_ok htext₂).2
    have hhex := bytesToHex_injective ((pure_ok h).trans (pure_ok h').symm)
    have hbytes := wideSha256_injective hhex
    rw [encodeUtf8_injective (h₁ ▸ htext _) (h₂ ▸ htext _) hbytes]
  · intro event seq hostTs previousHash h
    obtain ⟨text, -, h⟩ := bind_ok h
    have hhex : bytesToHex (wideSha256 (.obj members) (encodeUtf8 text)) = GENESIS_HASH := pure_ok h
    unfold wideSha256 at hhex
    split at hhex
    · rename_i hknown
      exact hgenesis (hknown ▸ hhex)
    · have hlength := congrArg (fun s => s.units.length) hhex
      simp [bytesToHex, GENESIS_HASH] at hlength

-- The chain a host seals for one attempt, and the value its record's hash covers.
def sealedAttempt : Json := toolEvent SESSION_A EVENT_1 Outcome.ATTEMPTED []

def sealedPreimage : Json :=
  recordPreimage (some sealedAttempt) (some (.num (.ofNat 0))) (some (.str NOON)) (some (.str GENESIS_HASH))

def sealedHash : JsString := bytesToHex (Sha256.sha256 (encodeUtf8 (jcs sealedPreimage)))

theorem sealedPreimage_ascii : ∀ c ∈ (jcs sealedPreimage).units, c.toNat < 0x80 :=
  List.all_iff_forall_prop.mp (by decide +kernel)

-- A chain of one record.
def first (event : Json) (recordHash : JsString) : SealedRecord where
  event := event
  seq := 0
  host_ts := some (.str NOON)
  previous_hash := GENESIS_HASH
  record_hash := recordHash
  host_signature := none
  host_key_id := none
  log_id := none

theorem first_isLedgerChain {P : Primitives} {members : List (JsString × Json)} {recordHash : JsString}
    (h : computeRecordHash P (some (.obj members)) (some (.num (.ofNat 0))) (some (.str NOON))
      (some (.str GENESIS_HASH)) = .ok recordHash) :
    IsLedgerChain P [(first (.obj members) recordHash).toStored] := by
  refine ⟨Ledger.new.commit (first (.obj members) recordHash), ?_, rfl⟩
  have happend : Ledger.new.append P (.obj members) (some (.str NOON)) =
      .ok (Ledger.new.commit (first (.obj members) recordHash)) :=
    Ledger.append_ok.mpr ⟨recordHash, h, rfl⟩
  show (Ledger.new.append P (.obj members) (some (.str NOON))).bind (Ledger.appendAll P · []) = _
  rw [happend]
  rfl

-- The verifier gives a report, without a finding about the chain or its digest.
def verifiesClean (P : Primitives) (records : List StoredRecord) (anchored : JsString) : Bool :=
  match verifyChain P records (.anchored (some anchored)) with
  | .ok report => report.issues.all fun issue => issue.kind ∉ chainKinds ∧ issue.kind ≠ .digestMismatch
  | .error _ => false

theorem verifiesClean_report {P : Primitives} {records : List StoredRecord} {anchored : JsString}
    (h : verifiesClean P records anchored = true) :
    ∃ report, verifyChain P records (.anchored (some anchored)) = .ok report ∧ NoChainIssue report.issues ∧
      ∀ issue ∈ report.issues, issue.kind ≠ .digestMismatch := by
  unfold verifiesClean at h
  split at h
  · rename_i report hreport
    have hall := fun issue hi => of_decide_eq_true (List.all_eq_true.mp h issue hi)
    exact ⟨report, hreport, fun issue hi => (hall issue hi).1, fun issue hi => (hall issue hi).2⟩
  · cases h

-- An event whose `id` has no primitive form.
def unreadable : Json := .obj [("id", .obj [("toString", .num (.ofNat 1))])]

end

end AuditableMcp
