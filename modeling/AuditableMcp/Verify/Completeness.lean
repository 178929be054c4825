import AuditableMcp.Reference.Events
import AuditableMcp.Verify.Tampering

-- What a complete verdict says was checked.
namespace AuditableMcp

-- The hash of a chain's last record, recomputed from the record bodies from genesis.
def chainHash (P : Primitives) (records : List StoredRecord) : Except JsError JsString :=
  records.foldlM (fun previous record => computeRecordHash P record.event record.seq record.host_ts (some (.str previous)))
    GENESIS_HASH

-- The record at a position carries a whole countersignature, and the checker accepted it over
-- the position's recomputed hashes.
structure Countersigned (P : Primitives) (inputs : VerifyInputs) (i : Nat) (previous recomputed : JsString)
    (record : StoredRecord) (keyId logId : Json) : Prop where
  host_key_id : record.host_key_id = some keyId
  log_id : record.log_id = some logId
  accepted : ∃ signature checker payload, record.host_signature = some signature ∧
    inputs.countersignatureChecker = some checker ∧
    countersignaturePayload P (some (.num (.ofNat i))) record.host_ts record.log_id (some (.str previous))
      (some (.str recomputed)) = .ok payload ∧
    checker keyId signature payload = .ok true

-- The checker accepted the embedded event, where that carries a signature.
def SignatureChecked (inputs : VerifyInputs) (record : StoredRecord) : Prop :=
  ∀ event, inputs.adapter.eventOf record.event = .ok (some event) → event.isObject = true →
    (event.get Fields.SIGNATURE).isSome = true →
    ∃ checker, inputs.signatureChecker = some checker ∧ checker event = .ok true

-- The record is of the expected partition, countersigned under one of its host's keys. A
-- `host_key_id` that is no string, as only a stored record can have, is compared by its text.
structure Expected (P : Primitives) (expected : ExpectedIdentity) (record : StoredRecord) : Prop where
  log_id : record.log_id = some (.str expected.logId)
  host_key_id : ∀ key, record.host_key_id = some (.str key) → key ∈ expected.hostKeyIds
  host_key_text : ∃ key, stringOfOption P record.host_key_id = .ok key ∧ key ∈ expected.hostKeyIds

-- What a complete verdict says of one record.
structure Confirmed (P : Primitives) (inputs : VerifyInputs) (i : Nat) (previous recomputed : JsString)
    (record : StoredRecord) : Prop where
  countersigned : countersignatureMembers record ≠ 0 →
    ∃ keyId logId, Countersigned P inputs i previous recomputed record keyId logId
  required : inputs.countersignatureRequired = true → countersignatureMembers record ≠ 0
  expected : ∀ expected, inputs.expectedIdentity = some expected →
    countersignatureMembers record = 3 ∧ Expected P expected record
  signature : SignatureChecked inputs record

namespace Walk

-- Nothing was found so far, and nothing was left unchecked.
structure Clean (walk : Walk) : Prop where
  issues : walk.issues = []
  countersignature : walk.countersignatureUnchecked = false
  l2 : walk.l2Unchecked = false

-- The walk only ever finds more, and leaves more unchecked.
structure Extends (before after : Walk) : Prop where
  issues : ∃ new, after.issues = before.issues ++ new
  countersignature : before.countersignatureUnchecked = true → after.countersignatureUnchecked = true
  l2 : before.l2Unchecked = true → after.l2Unchecked = true

variable {before middle after : Walk} {record : StoredRecord}

theorem Extends.refl (walk : Walk) : Extends walk walk := ⟨⟨[], by simp⟩, id, id⟩

theorem Extends.trans (h : Extends before middle) (h' : Extends middle after) : Extends before after := by
  obtain ⟨first, hfirst⟩ := h.issues
  obtain ⟨second, hsecond⟩ := h'.issues
  exact ⟨⟨first ++ second, by rw [hsecond, hfirst, List.append_assoc]⟩, h'.countersignature ∘ h.countersignature,
    h'.l2 ∘ h.l2⟩

theorem Extends.report (walk : Walk) (record : StoredRecord) (kind : Tier1Code) (detail : AnomalyDetail) :
    Extends walk (walk.report record kind detail) := ⟨⟨_, rfl⟩, id, id⟩

theorem Extends.reportIf (walk : Walk) (found : Bool) (record : StoredRecord) (kind : Tier1Code) (detail : JsString) :
    Extends walk (walk.reportIf found record kind detail) := by
  unfold Walk.reportIf
  by_cases hfound : found = true
  · rw [if_pos hfound]
    exact Extends.report walk record kind _
  · rw [if_neg hfound]
    exact Extends.refl walk

theorem Clean.of_extends (h : Clean after) (hextends : Extends before after) : Clean before := by
  obtain ⟨new, hnew⟩ := hextends.issues
  refine ⟨?_, ?_, ?_⟩
  · rw [h.issues] at hnew
    exact (List.append_eq_nil_iff.mp hnew.symm).1
  · by_contra hc
    rw [Bool.not_eq_false] at hc
    have := hextends.countersignature hc
    rw [h.countersignature] at this
    cases this
  · by_contra hl
    rw [Bool.not_eq_false] at hl
    have := hextends.l2 hl
    rw [h.l2] at this
    cases this

theorem not_clean_report (walk : Walk) (record : StoredRecord) (kind : Tier1Code) (detail : AnomalyDetail) :
    ¬Clean (walk.report record kind detail) := by
  intro h
  have := h.issues
  simp [Walk.report] at this

theorem clean_reportIf {walk : Walk} {found : Bool} {kind : Tier1Code} {detail : JsString}
    (h : Clean (walk.reportIf found record kind detail)) : found = false ∧ walk.reportIf found record kind detail = walk := by
  cases found with
  | false => exact ⟨rfl, rfl⟩
  | true => exact absurd h (not_clean_report walk record kind _)

end Walk

section Phases

variable {P : Primitives} {inputs : VerifyInputs} {record : StoredRecord} {walk after : Walk}

theorem checkPrincipal_extends (h : checkPrincipal P inputs record walk = .ok after) : walk.Extends after := by
  unfold checkPrincipal at h
  split at h
  · rw [← Except.ok.inj h]
    exact .refl walk
  · obtain ⟨principal, -, h⟩ := bind_ok h
    split at h
    · rw [← pure_ok h]
      exact .refl walk
    · obtain ⟨text, -, h⟩ := bind_ok h
      rw [← pure_ok h]
      exact .report walk record _ _

theorem correlate_extends {inner : Option Json} (h : correlate P inputs record walk inner = .ok after) :
    walk.Extends after := by
  obtain ⟨operation, -, h⟩ := bind_ok h
  cases operation with
  | none =>
      rw [← pure_ok h]
      exact .refl walk
  | some entry =>
      obtain ⟨attempt, -, h⟩ := bind_ok h
      split at h
      · rw [← pure_ok h]
        exact ⟨⟨[], by simp⟩, id, id⟩
      · split at h
        · obtain ⟨text, -, h⟩ := bind_ok h
          rw [← pure_ok h]
          exact .report walk record _ _
        · rw [← pure_ok h]
          exact .refl walk

theorem checkReplayed_extends {inner : Option Json} (h : checkReplayed P record walk inner = .ok after) :
    walk.Extends after := by
  unfold checkReplayed at h
  split at h
  · rw [← Except.ok.inj h]
    exact .refl walk
  · dsimp only at h
    split at h
    · obtain ⟨text, -, h⟩ := bind_ok h
      rw [← pure_ok h]
      exact .report walk record _ _
    · rw [← Except.ok.inj h]
      exact ⟨⟨[], by simp⟩, id, id⟩

theorem checkSignature_extends {inner : Option Json} (h : checkSignature inputs record walk inner = .ok after) :
    walk.Extends after := by
  unfold checkSignature at h
  split at h
  · rw [← Except.ok.inj h]
    exact .refl walk
  · split at h
    · rw [← Except.ok.inj h]
      exact ⟨⟨[], by simp⟩, id, fun _ => rfl⟩
    · obtain ⟨valid, -, h⟩ := bind_ok h
      split at h
      · rw [← pure_ok h]
        exact .refl walk
      · rw [← pure_ok h]
        exact .report walk record _ _

theorem checkTriple_extends {hashable : Bool} (h : checkTriple P inputs record walk hashable = .ok after) :
    walk.Extends after := by
  unfold checkTriple at h
  split at h
  · rw [← Except.ok.inj h]
    exact .report walk record _ _
  · split at h
    · rw [← Except.ok.inj h]
      exact .report walk record _ _
    · split at h
      · split at h
        · rw [← Except.ok.inj h]
          exact ⟨⟨[], by simp⟩, fun _ => rfl, id⟩
        · obtain ⟨payload, -, h⟩ := bind_ok h
          obtain ⟨valid, -, h⟩ := bind_ok h
          split at h
          · rw [← pure_ok h]
            exact .refl walk
          · obtain ⟨text, -, h⟩ := bind_ok h
            rw [← pure_ok h]
            exact .report walk record _ _
      · rw [← Except.ok.inj h]
        exact .refl walk

theorem checkIdentity_extends (h : checkIdentity P inputs record walk = .ok after) : walk.Extends after := by
  unfold checkIdentity at h
  split at h
  · rw [← Except.ok.inj h]
    exact .refl walk
  · split at h
    · rw [← Except.ok.inj h]
      exact .report walk record _ _
    · split at h
      · obtain ⟨text, -, h⟩ := bind_ok h
        rw [← pure_ok h]
        exact .report walk record _ _
      · obtain ⟨text, -, h⟩ := bind_ok h
        rw [← pure_ok h]
        exact .reportIf walk _ record _ _

-- The phases after the hash, of a record whose hash was recomputed.
theorem checkHashable_extends {recomputed : JsString} (h : checkHashable P inputs record recomputed walk = .ok after) :
    walk.Extends after := by
  obtain ⟨inner, -, h⟩ := bind_ok h
  obtain ⟨correlated, hc, h⟩ := bind_ok h
  obtain ⟨replayed, hr, h⟩ := bind_ok h
  obtain ⟨principal, hp, h⟩ := bind_ok h
  obtain ⟨verified, hv, h⟩ := bind_ok h
  obtain ⟨last, hl, h⟩ := bind_ok h
  obtain ⟨countersigned, ht, hi⟩ := bind_ok hl
  obtain rfl := pure_ok h
  have hhashes : walk.Extends (checkHashes record walk recomputed) :=
    (Walk.Extends.reportIf walk _ record _ _).trans (.reportIf _ _ record _ _)
  have hlast := ((((hhashes.trans (correlate_extends hc)).trans (checkReplayed_extends hr)).trans
    (checkPrincipal_extends hp)).trans (checkSignature_extends hv)).trans
    ((checkTriple_extends ht).trans (checkIdentity_extends hi))
  exact ⟨hlast.issues, hlast.countersignature, hlast.l2⟩

theorem verifyRecord_extends (h : verifyRecord P inputs walk record = .ok after) : walk.Extends after := by
  obtain ⟨checked, hseq, h⟩ := bind_ok h
  have hchecked : walk.Extends checked := by
    rcases checkSequence_reports hseq with ⟨-, detail, rfl⟩ | ⟨-, rfl⟩
    · exact .report walk record _ _
    · exact .refl _
  split at h
  · exact hchecked.trans (checkHashable_extends h)
  · obtain ⟨principal, hp, h⟩ := bind_ok h
    obtain ⟨last, hl, h⟩ := bind_ok h
    obtain ⟨countersigned, ht, hi⟩ := bind_ok hl
    obtain rfl := pure_ok h
    have hlast := ((hchecked.trans (.report checked record _ _)).trans (checkPrincipal_extends hp)).trans
      ((checkTriple_extends ht).trans (checkIdentity_extends hi))
    exact ⟨hlast.issues, hlast.countersignature, hlast.l2⟩
  · cases h

theorem checkSignature_clean {inner : Option Json} (h : checkSignature inputs record walk inner = .ok after)
    (hclean : after.Clean) : ∀ event, inner = some event → event.isObject = true →
      (event.get Fields.SIGNATURE).isSome = true →
      ∃ checker, inputs.signatureChecker = some checker ∧ checker event = .ok true := by
  intro event hinner hobject hsigned
  unfold checkSignature at h
  split at h
  · rename_i hnone
    rw [hinner, innerObject, Option.filter_some, if_pos hobject, Option.filter_some, if_pos hsigned] at hnone
    cases hnone
  · rename_i read hread
    split at h
    · obtain rfl := Except.ok.inj h
      have := hclean.l2
      cases this
    · rename_i checker hchecker
      obtain ⟨valid, hvalid, h⟩ := bind_ok h
      split at h
      · rename_i haccepted
        refine ⟨checker, hchecker, ?_⟩
        rw [hinner, innerObject, Option.filter_some, if_pos hobject, Option.filter_some, if_pos hsigned] at hread
        rw [Option.some.inj hread, hvalid, haccepted]
      · obtain rfl := pure_ok h
        exact absurd hclean (Walk.not_clean_report walk record _ _)

theorem triple_of_members (h : countersignatureMembers record = 3) : ∃ signature keyId logId,
    record.host_signature = some signature ∧ record.host_key_id = some keyId ∧ record.log_id = some logId := by
  unfold countersignatureMembers at h
  cases hs : record.host_signature <;> cases hk : record.host_key_id <;> cases hl : record.log_id <;>
    simp [hs, hk, hl] at h
  exact ⟨_, _, _, rfl, rfl, rfl⟩

-- A record whose hash was recomputed carries no part of a countersignature, or all of one
-- that the checker accepted over what the record stores.
theorem checkTriple_clean (h : checkTriple P inputs record walk true = .ok after) (hclean : after.Clean) :
    (inputs.countersignatureRequired = true → countersignatureMembers record ≠ 0) ∧
      (countersignatureMembers record ≠ 0 → countersignatureMembers record = 3 ∧
        ∃ signature keyId checker payload, record.host_signature = some signature ∧ record.host_key_id = some keyId ∧
          inputs.countersignatureChecker = some checker ∧
          countersignaturePayload P record.seq record.host_ts record.log_id record.previous_hash record.record_hash =
            .ok payload ∧
          checker keyId signature payload = .ok true) := by
  unfold checkTriple at h
  split at h
  · rw [← Except.ok.inj h] at hclean
    exact absurd hclean (Walk.not_clean_report walk record _ _)
  rename_i hneither
  split at h
  · rw [← Except.ok.inj h] at hclean
    exact absurd hclean (Walk.not_clean_report walk record _ _)
  rename_i hpartial
  have hrequired : inputs.countersignatureRequired = true → countersignatureMembers record ≠ 0 :=
    fun hr h0 => hneither ⟨h0, hr⟩
  have hthree (h0 : countersignatureMembers record ≠ 0) : countersignatureMembers record = 3 := by
    by_contra h3
    exact hpartial ⟨h0, h3⟩
  split at h
  · rename_i signature keyId _ hsignature hkeyId
    split at h
    · obtain rfl := Except.ok.inj h
      have := hclean.countersignature
      cases this
    · rename_i checker hchecker
      obtain ⟨payload, hpayload, h⟩ := bind_ok h
      obtain ⟨valid, hvalid, h⟩ := bind_ok h
      split at h
      · rename_i haccepted
        refine ⟨hrequired, fun h0 => ⟨hthree h0, signature, keyId, checker, payload, hsignature, hkeyId, hchecker,
          hpayload, ?_⟩⟩
        rw [hvalid, haccepted]
      · obtain ⟨text, -, h⟩ := bind_ok h
        obtain rfl := pure_ok h
        exact absurd hclean (Walk.not_clean_report walk record _ _)
  · rename_i hnot
    refine ⟨hrequired, fun h0 => ?_⟩
    obtain ⟨signature, keyId, logId, hs, hk, -⟩ := triple_of_members (hthree h0)
    exact absurd hk (hnot signature keyId rfl hs)

theorem checkIdentity_clean (h : checkIdentity P inputs record walk = .ok after) (hclean : after.Clean) :
    ∀ expected, inputs.expectedIdentity = some expected →
      countersignatureMembers record = 3 ∧ Expected P expected record := by
  intro other he
  unfold checkIdentity at h
  split at h
  · rename_i hnone
    rw [hnone] at he
    cases he
  · rename_i expected hexpected
    split at h
    · rw [← Except.ok.inj h] at hclean
      exact absurd hclean (Walk.not_clean_report walk record _ _)
    · rename_i hthree
      split at h
      · obtain ⟨text, -, h⟩ := bind_ok h
        rw [← pure_ok h] at hclean
        exact absurd hclean (Walk.not_clean_report walk record _ _)
      · rename_i hlog
        obtain ⟨key, hkey, h⟩ := bind_ok h
        rw [← pure_ok h] at hclean
        obtain ⟨hfound, -⟩ := Walk.clean_reportIf hclean
        rw [hexpected] at he
        obtain rfl := Option.some.inj he
        have hmem : key ∈ expected.hostKeyIds := by simpa using hfound
        refine ⟨not_not.mp hthree, strictEq_str_iff.mp (by simpa using hlog), fun text htext => ?_, key, hkey, hmem⟩
        rw [htext] at hkey
        rwa [show text = key by simpa [stringOfOption, stringOf] using hkey]

theorem checkUnhashable_not_clean {message : JsString}
    (h : checkUnhashable P inputs record message walk = .ok after) : ¬after.Clean := by
  intro hclean
  obtain ⟨-, -, last, hfinds, hissues⟩ := checkUnhashable_finds h
  obtain ⟨new, hnew, -⟩ := hfinds.issues
  have hempty := hclean.issues
  rw [hissues, hnew] at hempty
  simp [Walk.report] at hempty

-- One turn of the loop that leaves the walk clean confirms its record, at the position and
-- after the link the walk had come to.
theorem verifyRecord_confirms {previous : JsString} (hprevious : walk.prevRecomputed = some (.str previous))
    (h : verifyRecord P inputs walk record = .ok after) (hclean : after.Clean) :
    after.index = walk.index + 1 ∧ ∃ recomputed,
      computeRecordHash P record.event record.seq record.host_ts (some (.str previous)) = .ok recomputed ∧
      after.prevRecomputed = some (.str recomputed) ∧ Confirmed P inputs walk.index previous recomputed record := by
  obtain ⟨hindex, -, -⟩ := verifyRecord_clean h
  obtain ⟨checked, hseq, h⟩ := bind_ok h
  have hreports := checkSequence_reports hseq
  rw [hreports.fields.2.1, hprevious] at h
  cases hhash : computeRecordHash P record.event record.seq record.host_ts (some (.str previous)) with
  | error e =>
      rw [hhash] at h
      cases e with
      | canonicalizationError message => exact absurd hclean (checkUnhashable_not_clean h)
      | _ => cases h
  | ok recomputed =>
      rw [hhash] at h
      obtain ⟨inner, hinner, h⟩ := bind_ok h
      obtain ⟨correlated, hc, h⟩ := bind_ok h
      obtain ⟨replayed, hr, h⟩ := bind_ok h
      obtain ⟨principal, hp, h⟩ := bind_ok h
      obtain ⟨verified, hv, h⟩ := bind_ok h
      obtain ⟨last, hl, h⟩ := bind_ok h
      obtain ⟨countersigned, ht, hi⟩ := bind_ok hl
      obtain rfl := pure_ok h
      have hlast : last.Clean := ⟨hclean.issues, hclean.countersignature, hclean.l2⟩
      have hcountersigned := hlast.of_extends (checkIdentity_extends hi)
      have hverified := hcountersigned.of_extends (checkTriple_extends ht)
      have hprincipal := hverified.of_extends (checkSignature_extends hv)
      obtain ⟨hrequired, htriple⟩ := checkTriple_clean ht hcountersigned
      have hhashes := ((hprincipal.of_extends (checkPrincipal_extends hp)).of_extends (checkReplayed_extends hr)).of_extends
        (correlate_extends hc)
      unfold checkHashes at hhashes
      obtain ⟨hstored, hsame⟩ := Walk.clean_reportIf hhashes
      rw [hsame] at hhashes
      obtain ⟨hlink, hsame⟩ := Walk.clean_reportIf hhashes
      rw [hsame] at hhashes
      have hplaced : ¬Json.strictEq record.seq (some (.num (.ofNat walk.index))) = false ∧ checked = walk := by
        rcases hreports with ⟨-, detail, hreport⟩ | ⟨hplaced, hchecked⟩
        · rw [hreport] at hhashes
          exact absurd hhashes (Walk.not_clean_report walk record _ _)
        · exact ⟨hplaced, hchecked⟩
      obtain ⟨hplaced, rfl⟩ := hplaced
      rw [Bool.not_eq_false, strictEq_num_iff] at hplaced
      rw [Bool.not_eq_false', hprevious, strictEq_str_iff] at hlink
      rw [Bool.not_eq_false', strictEq_str_iff] at hstored
      refine ⟨hindex, recomputed, rfl, rfl, fun hmembers => ?_, hrequired, checkIdentity_clean hi hlast, fun event hevent => ?_⟩
      · obtain ⟨hthree, signature, keyId, checker, payload, hs, hk, hchecker, hpayload, haccepted⟩ := htriple hmembers
        obtain ⟨-, -, logId, -, -, hlog⟩ := triple_of_members hthree
        rw [hplaced, hlink, hstored] at hpayload
        exact ⟨keyId, logId, hk, hlog, signature, checker, payload, hs, hchecker, hpayload, haccepted⟩
      · rw [hinner] at hevent
        exact checkSignature_clean hv hverified event (Except.ok.inj hevent)

end Phases

-- A clean walk has confirmed every record, over the chain recomputed from genesis.
theorem walk_confirms {P : Primitives} {inputs : VerifyInputs} {records : List StoredRecord} {walk : Walk}
    (h : records.foldlM (verifyRecord P inputs) Walk.start = .ok walk) (hclean : walk.Clean) :
    walk.index = records.length ∧
      (∃ recomputed, chainHash P records = .ok recomputed ∧ walk.prevRecomputed = some (.str recomputed)) ∧
      ∀ i record, records[i]? = some record → ∃ previous recomputed, chainHash P (records.take i) = .ok previous ∧
        chainHash P (records.take (i + 1)) = .ok recomputed ∧ Confirmed P inputs i previous recomputed record := by
  induction records using List.reverseRecOn generalizing walk with
  | nil =>
      cases h
      exact ⟨rfl, ⟨GENESIS_HASH, rfl, rfl⟩, by simp⟩
  | append_singleton done record ih =>
      rw [List.foldlM_append] at h
      obtain ⟨middle, hmiddle, h⟩ := bind_ok h
      rw [List.foldlM_cons] at h
      obtain ⟨after, hstep, h⟩ := bind_ok h
      obtain rfl := pure_ok h
      obtain ⟨hindex, ⟨previous, hprevious, hlink⟩, hdone⟩ := ih hmiddle (hclean.of_extends (verifyRecord_extends hstep))
      obtain ⟨hnext, recomputed, hhash, htail, hconfirmed⟩ := verifyRecord_confirms hlink hstep hclean
      have hall : chainHash P (done ++ [record]) = .ok recomputed := by
        unfold chainHash at hprevious ⊢
        rw [List.foldlM_append, hprevious]
        simp only [List.foldlM_cons, List.foldlM_nil, bind, Except.bind, hhash]
        rfl
      refine ⟨by rw [hnext, hindex, List.length_append, List.length_singleton], ⟨recomputed, hall, htail⟩, fun i other hi => ?_⟩
      by_cases hlt : i < done.length
      · rw [List.getElem?_append_left hlt] at hi
        rw [List.take_append_of_le_length (by omega), List.take_append_of_le_length (by omega)]
        exact hdone i other hi
      · have hlast : i = done.length := by
          have := (List.getElem?_eq_some_iff.mp hi).1
          rw [List.length_append, List.length_singleton] at this
          omega
        subst hlast
        rw [List.getElem?_append_right (by omega), Nat.sub_self] at hi
        obtain rfl := Option.some.inj hi
        rw [List.take_left', List.take_of_length_le (by simp)]
        · rw [← hindex]
          exact ⟨previous, recomputed, hprevious, hall, hconfirmed⟩
        · rfl

theorem verifyChain_complete {P : Primitives} {records : List StoredRecord} {inputs : VerifyInputs}
    {report : VerifyReport} (h : verifyChain P records inputs = .ok report) (hcomplete : report.complete = true) :
    ∃ walk, records.foldlM (verifyRecord P inputs) Walk.start = .ok walk ∧ walk.Clean := by
  unfold verifyChain at h
  split at h
  · cases h
  · obtain ⟨walk, hwalk, h⟩ := bind_ok h
    obtain ⟨events, -, h⟩ := bind_ok h
    obtain ⟨gaps, -, h⟩ := bind_ok h
    obtain ⟨digest, -, h⟩ := bind_ok h
    obtain rfl := pure_ok h
    obtain ⟨hissues, hunchecked⟩ := Bool.and_eq_true_iff.mp hcomplete
    have hempty : uncheckedOf walk = [] := List.isEmpty_iff.mp hunchecked
    refine ⟨walk, hwalk, ?_, ?_, ?_⟩
    · rw [List.isEmpty_iff, List.append_eq_nil_iff, List.append_eq_nil_iff] at hissues
      exact hissues.1.1
    · by_contra hc
      rw [Bool.not_eq_false] at hc
      simp [uncheckedOf, hc] at hempty
    · by_contra hl
      rw [Bool.not_eq_false] at hl
      simp [uncheckedOf, hl] at hempty

-- A complete verdict: every countersignature and every event signature there is was accepted
-- over the recomputed chain, and with a required countersignature and an expected identity
-- every record has one, of that identity.
theorem complete_checked {P : Primitives} {records : List StoredRecord} {inputs : VerifyInputs} {report : VerifyReport}
    (h : verifyChain P records inputs = .ok report) (hcomplete : report.complete = true) :
    (∀ expected, inputs.countersignatureRequired = true → inputs.expectedIdentity = some expected →
      (records ≠ [] → inputs.countersignatureChecker.isSome = true) ∧
      ∀ i record, records[i]? = some record → ∃ previous recomputed keyId logId,
        chainHash P (records.take i) = .ok previous ∧ chainHash P (records.take (i + 1)) = .ok recomputed ∧
        Countersigned P inputs i previous recomputed record keyId logId ∧ Expected P expected record ∧
        SignatureChecked inputs record) ∧
    ∀ i record, records[i]? = some record →
      (countersignatureMembers record = 0 ∨ ∃ previous recomputed keyId logId,
        chainHash P (records.take i) = .ok previous ∧ chainHash P (records.take (i + 1)) = .ok recomputed ∧
        Countersigned P inputs i previous recomputed record keyId logId) ∧ SignatureChecked inputs record := by
  obtain ⟨walk, hwalk, hclean⟩ := verifyChain_complete h hcomplete
  obtain ⟨-, -, hconfirmed⟩ := walk_confirms hwalk hclean
  constructor
  · intro expected hrequired hexpected
    have hall : ∀ i record, records[i]? = some record → ∃ previous recomputed keyId logId,
        chainHash P (records.take i) = .ok previous ∧ chainHash P (records.take (i + 1)) = .ok recomputed ∧
        Countersigned P inputs i previous recomputed record keyId logId ∧ Expected P expected record ∧
        SignatureChecked inputs record := by
      intro i record hi
      obtain ⟨previous, recomputed, hbefore, hafter, hrecord⟩ := hconfirmed i record hi
      obtain ⟨keyId, logId, hcountersigned⟩ := hrecord.countersigned (hrecord.required hrequired)
      exact ⟨previous, recomputed, keyId, logId, hbefore, hafter, hcountersigned, (hrecord.expected expected hexpected).2,
        hrecord.signature⟩
    refine ⟨fun hne => ?_, hall⟩
    obtain ⟨record, rest, rfl⟩ := List.exists_cons_of_ne_nil hne
    obtain ⟨_, _, _, _, _, _, hcountersigned, _⟩ := hall 0 record rfl
    obtain ⟨_, _, _, _, hchecker, _⟩ := hcountersigned.accepted
    rw [hchecker]
    rfl
  · intro i record hi
    obtain ⟨previous, recomputed, hbefore, hafter, hrecord⟩ := hconfirmed i record hi
    refine ⟨?_, hrecord.signature⟩
    by_cases hmembers : countersignatureMembers record = 0
    · exact Or.inl hmembers
    · obtain ⟨keyId, logId, hcountersigned⟩ := hrecord.countersigned hmembers
      exact Or.inr ⟨previous, recomputed, keyId, logId, hbefore, hafter, hcountersigned⟩

section

open Reference

def LOG : JsString := "tenant-1"

def HOST_KEY : JsString := "host-key-1"

-- One signed attempt, countersigned.
def countersignedRecords : List StoredRecord :=
  (sealedRecords [toolEvent SESSION_A EVENT_1 Outcome.ATTEMPTED (signedUnder "tool-key-1" 0 "c2ln")]).map fun record =>
    { record.toStored with host_signature := some (.str "aG9zdA"), host_key_id := some (.str HOST_KEY),
                           log_id := some (.str LOG) }

def demanding : VerifyInputs where
  anchoredDigest := none
  adapter := DEFAULT_ADAPTER
  expectedPrincipal := none
  countersignatureChecker := some fun keyId signature _ =>
    .ok (Json.isText (some keyId) HOST_KEY && Json.isText (some signature) "aG9zdA")
  signatureChecker := some fun event => .ok (Json.isText (event.get Fields.SIGNATURE) "c2ln")
  countersignatureRequired := true
  expectedIdentity := some ⟨LOG, [HOST_KEY]⟩

def completes (report : Except JsError VerifyReport) : Bool :=
  match report with
  | .ok report => report.complete
  | .error _ => false

theorem countersignedRecords_checked :
    ∃ record previous recomputed keyId logId, countersignedRecords[0]? = some record ∧
      chainHash primitives (countersignedRecords.take 0) = .ok previous ∧
      chainHash primitives (countersignedRecords.take 1) = .ok recomputed ∧
      Countersigned primitives demanding 0 previous recomputed record keyId logId ∧
      Expected primitives ⟨LOG, [HOST_KEY]⟩ record ∧ SignatureChecked demanding record := by
  have hcomplete : completes (verifyChain primitives countersignedRecords demanding) = true := by decide +kernel
  cases h : verifyChain primitives countersignedRecords demanding with
  | error e =>
      rw [h] at hcomplete
      cases hcomplete
  | ok report =>
      rw [h] at hcomplete
      have hchecked := ((complete_checked h hcomplete).1 ⟨LOG, [HOST_KEY]⟩ rfl rfl).2
      obtain ⟨previous, recomputed, keyId, logId, hconfirmed⟩ := hchecked 0 _ rfl
      exact ⟨_, previous, recomputed, keyId, logId, rfl, hconfirmed⟩

end

end AuditableMcp
