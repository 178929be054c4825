import AuditableMcp.Reference.Primitives
import AuditableMcp.Verify.Lookups

-- Where the verifier gives a report, over records of any content.
namespace AuditableMcp

-- A checker that answers, whatever it is asked.
structure VerifyInputs.CheckersTotal (inputs : VerifyInputs) : Prop where
  countersignature : ∀ checker, inputs.countersignatureChecker = some checker →
    ∀ keyId signature payload, ∃ verdict, checker keyId signature payload = .ok verdict
  signature : ∀ checker, inputs.signatureChecker = some checker → ∀ event, ∃ verdict, checker event = .ok verdict

-- What a countersignature is checked over.
def payloadPreimage (record : StoredRecord) : Json :=
  objectOf [("host_ts", record.host_ts), ("log_id", record.log_id), ("previous_hash", record.previous_hash),
    ("record_hash", record.record_hash), ("seq", record.seq)]

-- The countersignature's payload can be canonicalized, and the key it is refused for has a text.
def CountersignatureReports (P : Primitives) (inputs : VerifyInputs) (record : StoredRecord) : Prop :=
  countersignatureMembers record = 3 → ∀ checker, inputs.countersignatureChecker = some checker →
    Canonicalizable (payloadPreimage record) ∧
      ∀ keyId signature payload, record.host_key_id = some keyId → record.host_signature = some signature →
        countersignaturePayload P record.seq record.host_ts record.log_id record.previous_hash record.record_hash =
          .ok payload → checker keyId signature payload = .ok false → HasText P record.host_key_id

-- The member the expected identity is compared with, or told apart from, has a text.
def IdentityReports (P : Primitives) (inputs : VerifyInputs) (record : StoredRecord) : Prop :=
  countersignatureMembers record = 3 → ∀ expected, inputs.expectedIdentity = some expected →
    (record.log_id = some (.str expected.logId) → HasText P record.host_key_id) ∧
      (record.log_id ≠ some (.str expected.logId) → HasText P record.log_id)

def CorrelationReports (P : Primitives) (record : StoredRecord) : Prop :=
  ∃ event, record.event = some event ∧ event ≠ .null ∧ CorrelationTexts P event

-- The members of one record that a turn of the loop turns into text or canonicalizes, each
-- where it does so.
structure RecordReports (P : Primitives) (inputs : VerifyInputs) (before : List StoredRecord) (record : StoredRecord) :
    Prop where
  position : record.seq ≠ some (.num (.ofNat before.length)) → HasText P record.seq
  hashable : Hashable before record → CorrelationReports P record ∧ CountersignatureReports P inputs record
  identity : IdentityReports P inputs record

-- The same of a whole ledger: its records, the events the accounting reads, and the digest
-- an anchored one is compared with.
structure LedgerReports (P : Primitives) (inputs : VerifyInputs) (records : List StoredRecord) : Prop where
  principal : inputs.expectedPrincipal ≠ some .null
  turns : Each (RecordReports P inputs) records
  accounting : ∀ record ∈ records, ∀ event, record.event = some event → event.isObject = true →
    AccountingTexts P event
  digest : inputs.anchoredDigest.isSome = true → HasText P (expectedLink records)

-- Two phases, the second of which succeeds on what the first left in the same cases.
theorem bind_isOk_and {ε α β : Type} {x : Except ε α} {f : α → Except ε β} {C : Prop}
    (h : ∀ a, x = .ok a → ((∃ b, f a = .ok b) ↔ C)) : (∃ b, (x >>= f) = .ok b) ↔ (∃ a, x = .ok a) ∧ C := by
  rw [bind_isOk]
  constructor
  · rintro ⟨a, ha, hb⟩
    exact ⟨⟨a, ha⟩, (h a ha).mp hb⟩
  · rintro ⟨⟨a, ha⟩, hc⟩
    exact ⟨a, ha, (h a ha).mpr hc⟩

section Phases

variable {P : Primitives} {inputs : VerifyInputs} {record : StoredRecord} {walk after : Walk}

theorem checkSequence_isOk :
    (∃ after, checkSequence P record walk = .ok after) ↔
      (record.seq ≠ some (.num (.ofNat walk.index)) → HasText P record.seq) := by
  unfold checkSequence
  by_cases hseq : Json.strictEq record.seq (some (.num (.ofNat walk.index))) = true
  · rw [if_pos hseq]
    exact ⟨fun _ hne => absurd (strictEq_num_iff.mp hseq) hne, fun _ => ⟨walk, rfl⟩⟩
  · rw [if_neg hseq, bind_isOk]
    have hne : record.seq ≠ some (.num (.ofNat walk.index)) := fun h => hseq (strictEq_num_iff.mpr h)
    exact ⟨fun ⟨text, htext, _⟩ _ => ⟨text, htext⟩, fun h => (h hne).imp fun _ htext => ⟨htext, _, rfl⟩⟩

-- Once the position was compared, it has a text.
theorem checkSequence_text (h : checkSequence P record walk = .ok after) : HasText P record.seq := by
  have hposition := checkSequence_isOk.mp ⟨after, h⟩
  by_cases hseq : record.seq = some (.num (.ofNat walk.index))
  · rw [hseq]
    exact hasText_num P _
  · exact hposition hseq

theorem readMember_isOk {key : JsString} {event : Option Json} :
    (∃ value, readMember key event = .ok value) ↔ ∃ given, event = some given ∧ given ≠ .null := by
  cases event with
  | none => simp [readMember]
  | some given => cases given <;> simp [readMember]

theorem readMember_some {key : JsString} {event : Json} (h : event ≠ .null) :
    readMember key (some event) = .ok (event.get key) := by
  cases event <;> simp [readMember] at h ⊢

-- Correlation reads members, so it throws on an event that has none to read, and else where
-- a member it reads has no text.
theorem correlate_isOk_iff (hadapter : inputs.adapter = DEFAULT_ADAPTER) :
    (∃ after, correlate P inputs record walk record.event = .ok after) ↔ CorrelationReports P record := by
  unfold CorrelationReports
  by_cases hread : ∃ event, record.event = some event ∧ event ≠ .null
  · obtain ⟨event, hevent, hne⟩ := hread
    have hiff : (∃ after, correlate P inputs record walk (some event) = .ok after) ↔ CorrelationTexts P event := by
      by_cases hobject : ∃ members, event = .obj members
      · obtain ⟨members, rfl⟩ := hobject
        rw [correlate_isOk hadapter hevent, eventOperation_isOk]
      · have hget : ∀ key, event.get key = none := by
          intro key
          cases event with
          | obj members => exact absurd ⟨members, rfl⟩ hobject
          | _ => rfl
        have hid : inputs.adapter.idOf record.event = .ok none := by
          rw [hadapter, hevent, ← hget Fields.ID]
          exact readMember_some hne
        refine ⟨fun _ id hid _ => absurd hid (by simp [hget]), fun _ => ⟨walk, ?_⟩⟩
        unfold correlate operationOf
        rw [hid]
        rfl
    rw [hevent, hiff]
    simp [hne]
  · constructor
    · rintro ⟨after, h⟩
      obtain ⟨operation, hoperation, -⟩ := bind_ok h
      obtain ⟨id, hid, -⟩ := bind_ok hoperation
      rw [hadapter] at hid
      exact absurd (readMember_isOk.mp ⟨id, hid⟩) hread
    · rintro ⟨event, hevent, hne, -⟩
      exact absurd ⟨event, hevent, hne⟩ hread

theorem correlate_numbered {inner : Option Json} (h : correlate P inputs record walk inner = .ok after) :
    after.numbered = walk.numbered := by
  obtain ⟨operation, -, h⟩ := bind_ok h
  cases operation with
  | none =>
      obtain rfl := pure_ok h
      rfl
  | some found =>
      obtain ⟨attempt, -, h⟩ := bind_ok h
      split at h
      · obtain rfl := pure_ok h
        rfl
      · split at h
        · obtain ⟨text, -, h⟩ := bind_ok h
          obtain rfl := pure_ok h
          rfl
        · obtain rfl := pure_ok h
          rfl

-- A number is kept under the first record that has a position.
theorem checkReplayed_first {inner : Option Json} (h : checkReplayed P record walk inner = .ok after)
    {key : NumberKey} {first : Json} (hfirst : after.numbered.get key = some (some first)) :
    walk.numbered.get key = some (some first) ∨ record.seq = some first := by
  unfold checkReplayed at h
  split at h
  · obtain rfl := Except.ok.inj h
    exact Or.inl hfirst
  · dsimp only at h
    split at h
    · obtain ⟨text, -, h⟩ := bind_ok h
      obtain rfl := pure_ok h
      exact Or.inl hfirst
    · obtain rfl := Except.ok.inj h
      simp only [OrderedMap.get_set] at hfirst
      split at hfirst
      · exact Or.inr (Option.some.inj hfirst)
      · exact Or.inl hfirst

theorem stringOf_primitive {value : Json} (h : value.isObject = false) : HasText P (some value) := by
  cases value with
  | arr elements => simp [Json.isObject] at h
  | obj members => simp [Json.isObject] at h
  | _ => simp [HasText, stringOfOption, stringOf]

theorem checkPrincipal_isOk (hadapter : inputs.adapter = DEFAULT_ADAPTER)
    (hprincipal : ∀ expected, inputs.expectedPrincipal = some expected → expected.isObject = false) :
    ∃ after, checkPrincipal P inputs record walk = .ok after := by
  unfold checkPrincipal
  split
  · exact ⟨walk, rfl⟩
  · rename_i expected hexpected
    obtain ⟨text, htext⟩ := stringOf_primitive (P := P) (hprincipal expected hexpected)
    rw [hadapter]
    refine bind_isOk.mpr ⟨none, rfl, ?_⟩
    split
    · exact ⟨walk, rfl⟩
    · exact bind_isOk.mpr ⟨text, htext, _, rfl⟩

theorem checkSignature_isOk (hcheckers : inputs.CheckersTotal) (inner : Option Json) :
    ∃ after, checkSignature inputs record walk inner = .ok after := by
  unfold checkSignature
  split
  · exact ⟨walk, rfl⟩
  · split
    · exact ⟨_, rfl⟩
    · rename_i event _ _ checker hchecker
      obtain ⟨verdict, hverdict⟩ := hcheckers.signature checker hchecker event
      refine bind_isOk.mpr ⟨verdict, hverdict, ?_⟩
      split <;> exact ⟨_, rfl⟩

theorem members_three (h : countersignatureMembers record = 3) :
    ∃ signature keyId logId, record.host_signature = some signature ∧ record.host_key_id = some keyId ∧
      record.log_id = some logId := by
  unfold countersignatureMembers at h
  cases hs : record.host_signature <;> cases hk : record.host_key_id <;> cases hl : record.log_id <;>
    simp [hs, hk, hl] at h ⊢

theorem countersignaturePayload_isOk :
    (∃ payload, countersignaturePayload P record.seq record.host_ts record.log_id record.previous_hash
      record.record_hash = .ok payload) ↔ Canonicalizable (payloadPreimage record) := by
  unfold countersignaturePayload
  rw [bind_isOk]
  change (∃ canonical, canonicalize P (payloadPreimage record) = .ok canonical ∧ _) ↔ _
  constructor
  · rintro ⟨canonical, h, -⟩
    exact (canonicalizable_of_ok h).1
  · exact fun h => ⟨_, canonicalize_of_canonicalizable P h, _, rfl⟩

-- A countersignature is checked where the record's hash was recomputed, and its payload
-- holds members that the hash does not cover.
theorem checkTriple_isOk (hcheckers : inputs.CheckersTotal) {hashable : Bool} :
    (∃ after, checkTriple P inputs record walk hashable = .ok after) ↔
      (hashable = true → CountersignatureReports P inputs record) := by
  unfold checkTriple CountersignatureReports
  by_cases habsent : countersignatureMembers record = 0 ∧ inputs.countersignatureRequired = true
  · rw [if_pos habsent]
    exact ⟨fun _ _ h3 => absurd habsent.1 (by omega), fun _ => ⟨_, rfl⟩⟩
  · rw [if_neg habsent]
    by_cases hpartial : countersignatureMembers record ≠ 0 ∧ countersignatureMembers record ≠ 3
    · rw [if_pos hpartial]
      exact ⟨fun _ _ h3 => absurd h3 hpartial.2, fun _ => ⟨_, rfl⟩⟩
    · rw [if_neg hpartial]
      cases hashable with
      | false => exact ⟨fun _ h => absurd h (by simp), fun _ => ⟨walk, rfl⟩⟩
      | true =>
          by_cases h3 : countersignatureMembers record = 3
          · obtain ⟨signature, keyId, logId, hs, hk, -⟩ := members_three h3
            simp only [hs, hk]
            cases hchecker : inputs.countersignatureChecker with
            | none => simp
            | some checker =>
                simp only [bind_isOk, ← countersignaturePayload_isOk (P := P)]
                constructor
                · rintro ⟨payload, hpayload, verdict, hverdict, h⟩ - - own hown
                  obtain rfl := Option.some.inj hown
                  refine ⟨⟨payload, hpayload⟩, fun id given other hid hgiven hother hfalse => ?_⟩
                  obtain rfl := Option.some.inj hid
                  obtain rfl := Option.some.inj hgiven
                  obtain rfl := Except.ok.inj (hpayload.symm.trans hother)
                  obtain rfl := Except.ok.inj (hverdict.symm.trans hfalse)
                  obtain ⟨text, htext, -⟩ := bind_isOk.mp h
                  exact ⟨text, htext⟩
                · intro h
                  obtain ⟨⟨payload, hpayload⟩, htext⟩ := h trivial h3 checker rfl
                  obtain ⟨verdict, hverdict⟩ := hcheckers.countersignature checker hchecker keyId signature payload
                  refine ⟨payload, hpayload, verdict, hverdict, ?_⟩
                  cases verdict with
                  | true => exact ⟨walk, rfl⟩
                  | false =>
                      obtain ⟨text, ht⟩ := htext keyId signature payload rfl rfl hpayload hverdict
                      exact bind_isOk.mpr ⟨text, ht, _, rfl⟩
          · have h0 : countersignatureMembers record = 0 := by
              by_contra hne
              exact hpartial ⟨hne, h3⟩
            have hs : record.host_signature = none := by
              unfold countersignatureMembers at h0
              cases h : record.host_signature with
              | none => rfl
              | some signature => simp [h] at h0
            simp only [hs]
            exact ⟨fun _ _ h => absurd h h3, fun _ => ⟨walk, rfl⟩⟩

theorem checkIdentity_isOk :
    (∃ after, checkIdentity P inputs record walk = .ok after) ↔ IdentityReports P inputs record := by
  unfold checkIdentity IdentityReports
  cases hexpected : inputs.expectedIdentity with
  | none => simp
  | some expected =>
      dsimp only
      by_cases h3 : countersignatureMembers record = 3
      · simp only [h3, ne_eq, not_true_eq_false, ite_false, true_imp_iff, Option.some.injEq, forall_eq']
        by_cases hlog : record.log_id = some (.str expected.logId)
        · have hequal : Json.strictEq record.log_id (some (.str expected.logId)) = true := strictEq_str_iff.mpr hlog
          rw [hequal, Bool.not_true, if_neg (by simp), bind_isOk]
          exact ⟨fun ⟨text, htext, _⟩ => ⟨fun _ => ⟨text, htext⟩, fun h => absurd hlog h⟩,
            fun h => (h.1 hlog).imp fun _ htext => ⟨htext, _, rfl⟩⟩
        · have hother : Json.strictEq record.log_id (some (.str expected.logId)) = false := by
            simpa using fun h => hlog (strictEq_str_iff.mp h)
          rw [hother, Bool.not_false, if_pos rfl, bind_isOk]
          exact ⟨fun ⟨text, htext, _⟩ => ⟨fun h => absurd h hlog, fun _ => ⟨text, htext⟩⟩,
            fun h => (h.2 hlog).imp fun _ htext => ⟨htext, _, rfl⟩⟩
      · rw [if_pos h3]
        exact ⟨fun _ h => absurd h h3, fun _ => ⟨_, rfl⟩⟩

theorem checkCountersignature_isOk (hcheckers : inputs.CheckersTotal) {hashable : Bool}
    {close : Walk → Except JsError Walk} (hclose : ∀ walk, ∃ after, close walk = .ok after) :
    (∃ after, (checkCountersignature P inputs record walk hashable >>= close) = .ok after) ↔
      (hashable = true → CountersignatureReports P inputs record) ∧ IdentityReports P inputs record := by
  have hboth := bind_isOk_and (x := checkTriple P inputs record walk hashable) fun middle _ =>
    @checkIdentity_isOk P inputs record middle
  rw [checkTriple_isOk hcheckers] at hboth
  rw [bind_isOk, ← hboth]
  exact ⟨fun ⟨last, hlast, _⟩ => ⟨last, hlast⟩, fun ⟨last, hlast⟩ => ⟨last, hlast, hclose last⟩⟩

end Phases

section

variable {P : Primitives} {inputs : VerifyInputs} {done : List StoredRecord} {record : StoredRecord} {walk after : Walk}

-- What the loop was given out of band, beside the records.
structure VerifyInputs.Plain (inputs : VerifyInputs) : Prop where
  adapter : inputs.adapter = DEFAULT_ADAPTER
  principal : ∀ expected, inputs.expectedPrincipal = some expected → expected.isObject = false
  checkers : inputs.CheckersTotal

theorem checkHashable_isOk_iff (hplain : inputs.Plain) {recomputed : JsString} (htexts : NumbersText P walk) :
    (∃ after, checkHashable P inputs record recomputed walk = .ok after) ↔
      CorrelationReports P record ∧ CountersignatureReports P inputs record ∧ IdentityReports P inputs record := by
  have hinner : inputs.adapter.eventOf record.event = .ok record.event := by
    rw [hplain.adapter]
    rfl
  have hnumbered := (checkHashes_finds record walk recomputed).numbered
  unfold checkHashable
  simp only [hinner]
  rw [← @correlate_isOk_iff _ _ _ (checkHashes record walk recomputed) hplain.adapter]
  change (∃ b, (correlate P inputs record (checkHashes record walk recomputed) record.event >>= _) = .ok b) ↔ _
  refine bind_isOk_and fun correlated hcorrelated => ?_
  have htexts' : ∀ key first, correlated.numbered.get key = some (some first) →
      ∃ text, stringOf P first = .ok text := by
    intro key first hfirst
    rw [correlate_numbered hcorrelated, hnumbered] at hfirst
    exact htexts key first hfirst
  obtain ⟨replayed, hreplayed⟩ := checkReplayed_isOk record htexts' record.event
  obtain ⟨matched, hmatched⟩ := @checkPrincipal_isOk P _ record replayed hplain.adapter
    hplain.principal
  obtain ⟨signed, hsigned⟩ := @checkSignature_isOk _ record matched hplain.checkers record.event
  simp only [hreplayed, hmatched, hsigned, bind, Except.bind]
  have hclose := @checkCountersignature_isOk P _ record signed hplain.checkers true
    (fun walk => pure { walk with index := walk.index + 1, prevRecomputed := some (.str recomputed) })
    fun _ => ⟨_, rfl⟩
  simpa only [bind, Except.bind, true_imp_iff] using hclose

-- A number is kept under a position that has a text.
theorem checkHashable_texts {recomputed : JsString} (hposition : HasText P record.seq) (htexts : NumbersText P walk)
    (h : checkHashable P inputs record recomputed walk = .ok after) : NumbersText P after := by
  obtain ⟨inner, -, h⟩ := bind_ok h
  obtain ⟨correlated, hcorrelated, h⟩ := bind_ok h
  obtain ⟨replayed, hreplayed, h⟩ := bind_ok h
  obtain ⟨matched, hmatched, h⟩ := bind_ok h
  obtain ⟨signed, hsigned, h⟩ := bind_ok h
  obtain ⟨last, hlast, h⟩ := bind_ok h
  obtain rfl := pure_ok h
  have hnumbered : last.numbered = replayed.numbered := by
    rw [(checkCountersignature_adds hlast).numbered, (checkSignature_adds hsigned).numbered,
      (checkPrincipal_adds hmatched).numbered]
  intro key first hfirst
  rw [show _ = last.numbered from rfl, hnumbered] at hfirst
  rcases checkReplayed_first hreplayed hfirst with hold | hnew
  · rw [correlate_numbered hcorrelated, (checkHashes_finds record walk recomputed).numbered] at hold
    exact htexts key first hold
  · rw [← hnew]
    exact hposition

theorem checkUnhashable_numbered {message : JsString} (h : checkUnhashable P inputs record message walk = .ok after) :
    after.numbered = walk.numbered := by
  obtain ⟨matched, hmatched, h⟩ := bind_ok h
  obtain ⟨last, hlast, h⟩ := bind_ok h
  obtain rfl := pure_ok h
  exact (checkCountersignature_adds hlast).numbered.trans (checkPrincipal_adds hmatched).numbered

-- Two links that are the same text or both a hash.
def AlikeLink (link expected : Option Json) : Prop :=
  link = expected ∨ ∃ hash other, link = some (.str hash) ∧ expected = some (.str other) ∧
    LONE_SURROGATE hash = false ∧ LONE_SURROGATE other = false

theorem AlikeLink.sameLink {link expected : Option Json} (h : AlikeLink link expected) : SameLink link expected := by
  rcases h with rfl | ⟨hash, other, rfl, rfl, hhash, hother⟩
  · exact fun _ _ _ => Iff.rfl
  · exact sameLink_str hhash hother

theorem AlikeLink.hasText_iff {link expected : Option Json} (h : AlikeLink link expected) :
    HasText P link ↔ HasText P expected := by
  rcases h with rfl | ⟨hash, other, rfl, rfl, -, -⟩
  · exact Iff.rfl
  · exact ⟨fun _ => hasText_str P other, fun _ => hasText_str P hash⟩

-- The walk over some records, as far as the next turn's exceptions depend on it.
structure Followed (P : Primitives) (done : List StoredRecord) (walk : Walk) : Prop where
  index : walk.index = done.length
  link : AlikeLink walk.prevRecomputed (expectedLink done)
  texts : NumbersText P walk

theorem followed_start (P : Primitives) : Followed P [] Walk.start :=
  ⟨rfl, Or.inl rfl, fun key first h => by simp [Walk.start] at h⟩

theorem Followed.hashable_iff (h : Followed P done walk) :
    Canonicalizable (recordPreimage record.event record.seq record.host_ts walk.prevRecomputed) ↔
      Hashable done record := h.link.sameLink _ _ _

theorem verifyRecord_followed (h : Followed P done walk) (hstep : verifyRecord P inputs walk record = .ok after) :
    Followed P (done ++ [record]) after := by
  obtain ⟨placed, hplaced, hstep⟩ := bind_ok hstep
  obtain ⟨hindex, hlink, -, hnumbered⟩ := (checkSequence_reports hplaced).fields
  have hposition := checkSequence_text hplaced
  have htexts : NumbersText P placed := by
    unfold NumbersText
    rw [hnumbered]
    exact h.texts
  have hlength : (done ++ [record]).length = walk.index + 1 := by
    rw [List.length_append, List.length_singleton, h.index]
  rw [hlink] at hstep
  rcases computeRecordHash_cases P record.event record.seq record.host_ts walk.prevRecomputed with
    ⟨hcan, recomputed, hhash, hwell⟩ | ⟨hcannot, message, hhash⟩
  · simp only [hhash] at hstep
    obtain ⟨hafter, htail, -⟩ := checkHashable_finds signatureFinds_any hstep
    refine ⟨by rw [hafter, hindex, hlength], ?_, checkHashable_texts hposition htexts hstep⟩
    rw [expectedLink_append_singleton, nextLink, if_pos (show Canonicalizable _ from h.hashable_iff.mp hcan), htail]
    exact Or.inr ⟨recomputed, GENESIS_HASH, rfl, rfl, hwell, genesis_wellFormed⟩
  · simp only [hhash] at hstep
    obtain ⟨hafter, htail, -⟩ := checkUnhashable_finds hstep
    refine ⟨by rw [hafter, hindex, hlength], ?_, ?_⟩
    · have hskip : ¬Hashable done record := fun hr => hcannot (h.hashable_iff.mpr hr)
      rw [expectedLink_append_singleton, nextLink, if_neg (show ¬Canonicalizable _ from hskip), htail]
      exact Or.inl rfl
    · unfold NumbersText
      rw [checkUnhashable_numbered hstep]
      exact htexts

-- One turn gives no exception exactly where the members it reads are as it needs them.
theorem verifyRecord_isOk_iff (hplain : inputs.Plain) (h : Followed P done walk) :
    (∃ after, verifyRecord P inputs walk record = .ok after) ↔ RecordReports P inputs done record := by
  have hsteps : (∃ after, verifyRecord P inputs walk record = .ok after) ↔
      (∃ placed, checkSequence P record walk = .ok placed) ∧
        (Hashable done record → CorrelationReports P record ∧ CountersignatureReports P inputs record) ∧
          IdentityReports P inputs record := by
    refine bind_isOk_and fun placed hplaced => ?_
    obtain ⟨-, hlink, -, hnumbered⟩ := (checkSequence_reports hplaced).fields
    have htexts : NumbersText P placed := by
      unfold NumbersText
      rw [hnumbered]
      exact h.texts
    rw [hlink]
    rcases computeRecordHash_cases P record.event record.seq record.host_ts walk.prevRecomputed with
      ⟨hcan, recomputed, hhash, -⟩ | ⟨hcannot, message, hhash⟩
    · simp only [hhash]
      have hr := h.hashable_iff.mp hcan
      rw [checkHashable_isOk_iff hplain htexts]
      simp only [hr, true_imp_iff, and_assoc]
    · simp only [hhash]
      have hr : ¬Hashable done record := fun hr => hcannot (h.hashable_iff.mpr hr)
      obtain ⟨matched, hmatched⟩ := @checkPrincipal_isOk P _ record
        (placed.report record .schemaInvalid (.text message)) hplain.adapter hplain.principal
      have hclose := @checkCountersignature_isOk P _ record matched hplain.checkers
        false (fun walk => pure { walk with index := walk.index + 1,
                                                                   prevRecomputed := record.record_hash })
        fun _ => ⟨_, rfl⟩
      unfold checkUnhashable
      simp only [hmatched, hr, false_imp_iff, true_and]
      simpa only [bind, Except.bind, Bool.false_eq_true, false_imp_iff, true_and] using hclose
  rw [hsteps, checkSequence_isOk, h.index]
  exact ⟨fun ⟨hposition, hhashable, hidentity⟩ => ⟨hposition, hhashable, hidentity⟩,
    fun ⟨hposition, hhashable, hidentity⟩ => ⟨hposition, hhashable, hidentity⟩⟩

end

section

variable {P : Primitives} {inputs : VerifyInputs} {records : List StoredRecord}

theorem digestIssues_isOk_iff {anchored : Option JsString} {computed : Option Json} :
    (∃ issues, digestIssues P anchored computed = .ok issues) ↔ (anchored.isSome = true → HasText P computed) := by
  unfold digestIssues
  cases anchored with
  | none => simp
  | some digest =>
      dsimp only
      by_cases hsame : Json.strictEq (some (.str digest)) computed = true
      · have hcomputed : HasText P computed := by
          cases computed with
          | none => cases hsame
          | some value => cases value <;> first | exact hasText_str P _ | cases hsame
        rw [if_pos hsame]
        exact ⟨fun _ _ => hcomputed, fun _ => ⟨[], rfl⟩⟩
      · rw [if_neg hsame, bind_isOk]
        exact ⟨fun ⟨text, htext, _⟩ _ => ⟨text, htext⟩, fun h => (h rfl).imp fun _ htext => ⟨htext, _, rfl⟩⟩

theorem walk_isOk_iff (hplain : inputs.Plain) :
    (∃ walk, records.foldlM (verifyRecord P inputs) Walk.start = .ok walk) ↔ Each (RecordReports P inputs) records :=
  foldlM_isOk_each (Followed P) (RecordReports P inputs) records
    (fun _ _ _ _ _ hdone => verifyRecord_isOk_iff hplain hdone)
    (fun _ _ _ _ _ _ hdone hstep => verifyRecord_followed hdone hstep) (followed_start P)

theorem walk_followed {walk : Walk} (h : records.foldlM (verifyRecord P inputs) Walk.start = .ok walk) :
    Followed P records walk :=
  foldlM_ok_invariant (Followed P) records (fun _ _ _ _ _ _ hdone hstep => verifyRecord_followed hdone hstep)
    (followed_start P) h

theorem verifyChain_isOk_iff (hplain : inputs.Plain) :
    (∃ report, verifyChain P records inputs = .ok report) ↔ LedgerReports P inputs records := by
  have hevents : (records.mapM fun record => inputs.adapter.eventOf record.event) =
      (.ok (records.map StoredRecord.event) : Except JsError (List (Option Json))) := by
    rw [hplain.adapter]
    exact List.mapM_pure
  have hobject : typeOf inputs.expectedPrincipal = "object" ↔ inputs.expectedPrincipal = some .null := by
    cases hexpected : inputs.expectedPrincipal with
    | none => simp [typeOf]; decide
    | some expected =>
        have hplain := hplain.principal expected hexpected
        cases expected with
        | arr elements => cases hplain
        | obj members => cases hplain
        | null => simp [typeOf]
        | _ => simp [typeOf]; decide
  have haccount : (∃ gaps, unaccountedSignerSeq P (records.map StoredRecord.event) = .ok gaps) ↔
      ∀ record ∈ records, ∀ event, record.event = some event → event.isObject = true → AccountingTexts P event := by
    rw [unaccountedSignerSeq_isOk]
    constructor
    · exact fun h record hr event he => h event (List.mem_map.mpr ⟨record, hr, he⟩)
    · intro h event he
      obtain ⟨record, hr, he⟩ := List.mem_map.mp he
      exact h record hr event he
  constructor
  · rintro ⟨report, h⟩
    have hprincipal : ¬typeOf inputs.expectedPrincipal = "object" := by
      intro hthrows
      unfold verifyChain at h
      rw [if_pos hthrows] at h
      cases h
    obtain ⟨walk, events, gaps, digest, hv⟩ := verifyChain_verified h
    have hread := hv.read
    rw [hevents] at hread
    obtain rfl := Except.ok.inj hread
    refine ⟨fun hnull => hprincipal (hobject.mpr hnull), (walk_isOk_iff hplain).mp ⟨walk, hv.walked⟩,
      haccount.mp ⟨gaps, hv.accounted⟩, ?_⟩
    rw [← (walk_followed hv.walked).link.hasText_iff]
    exact digestIssues_isOk_iff.mp ⟨digest, hv.compared⟩
  · rintro ⟨hprincipal, hturns, haccounting, hdigest⟩
    obtain ⟨walk, hwalk⟩ := (walk_isOk_iff hplain).mpr hturns
    obtain ⟨gaps, hgaps⟩ := haccount.mpr haccounting
    rw [← (walk_followed hwalk).link.hasText_iff] at hdigest
    obtain ⟨digest, hcompared⟩ := digestIssues_isOk_iff.mpr hdigest
    unfold verifyChain
    rw [if_neg fun h => hprincipal (hobject.mp h)]
    exact bind_isOk.mpr ⟨walk, hwalk, bind_isOk.mpr ⟨_, hevents, bind_isOk.mpr ⟨gaps, hgaps,
      bind_isOk.mpr ⟨digest, hcompared, _, rfl⟩⟩⟩⟩

theorem sameSeq_refl (seq : IssueSeq) : sameSeq seq seq = true := by
  cases seq with
  | ledger => rfl
  | record i value =>
      cases value with
      | none => rfl
      | some value =>
          cases value with
          | num n => cases n <;> simp [sameSeq, Json.strictEq]
          | _ => simp [sameSeq, Json.strictEq]

-- An issue of this kind bears the record's `seq`.
def Bears (issues : List VerifyIssue) (kind : Tier1Code) (i : Nat) (record : StoredRecord) : Prop :=
  ∃ issue ∈ issues, issue.kind = kind ∧ sameSeq (.record i record.seq) issue.seq = true

theorem specVersionRank_text {version : Option Json} {rank : Nat} (h : specVersionRank version = some rank) :
    HasText P version := by
  unfold specVersionRank at h
  split at h
  · exact hasText_str P _
  · cases h

theorem structuralIssue_isOk (P : Primitives) (latest : Nat) (inner : Option Json) :
    ∃ structural, structuralIssue P latest inner = .ok structural ∧
      (firstSealedValidationError inner ≠ none → structural ≠ none) := by
  unfold structuralIssue
  cases hinvalid : firstSealedValidationError inner with
  | some error => exact ⟨_, rfl, by simp⟩
  | none =>
      dsimp only
      split
      · rename_i rank hrank
        split
        · obtain ⟨text, htext⟩ := specVersionRank_text (P := P) hrank
          rw [htext]
          exact ⟨_, rfl, by simp⟩
        · exact ⟨none, rfl, by simp⟩
      · exact ⟨none, rfl, by simp⟩

-- After some records: each invalid one is reported, by the chain's walk or by this one.
structure Judged (reported : List IssueSeq) (done : List StoredRecord) (walk : VersionWalk) : Prop where
  index : walk.index = done.length
  issues : ∀ issue ∈ walk.issues, issue.kind = .schemaInvalid
  covered : ∀ i record, done[i]? = some record → firstSealedValidationError record.event ≠ none →
    reported.any (sameSeq (.record i record.seq)) = true ∨ Bears walk.issues .schemaInvalid i record

theorem Bears.mono {issues more : List VerifyIssue} {kind : Tier1Code} {i : Nat} {record : StoredRecord}
    (h : Bears issues kind i record) (hmore : ∀ issue ∈ issues, issue ∈ more) : Bears more kind i record := by
  obtain ⟨issue, hi, hb⟩ := h
  exact ⟨issue, hmore issue hi, hb⟩

theorem checkVersion_judged (hadapter : inputs.adapter = DEFAULT_ADAPTER) {reported : List IssueSeq}
    {done : List StoredRecord} {record : StoredRecord} {walk : VersionWalk} (h : Judged reported done walk) :
    ∃ after, checkVersion P inputs reported walk record = .ok after ∧ Judged reported (done ++ [record]) after := by
  obtain ⟨structural, hstructural, hinvalid⟩ := structuralIssue_isOk P walk.latest record.event
  have hlength : (done ++ [record]).length = walk.index + 1 := by
    rw [List.length_append, List.length_singleton, h.index]
  -- What holds of the records before stays, and the record itself is the last one.
  have hkeep {after : VersionWalk} (hindex : after.index = walk.index + 1)
      (hissues : ∀ issue ∈ after.issues, issue.kind = .schemaInvalid)
      (hmore : ∀ issue ∈ walk.issues, issue ∈ after.issues)
      (hself : firstSealedValidationError record.event ≠ none →
        reported.any (sameSeq (.record walk.index record.seq)) = true ∨
          Bears after.issues .schemaInvalid walk.index record) : Judged reported (done ++ [record]) after := by
    refine ⟨by rw [hindex, hlength], hissues, fun i other hi hbad => ?_⟩
    rcases Nat.lt_or_ge i done.length with hlt | hge
    · rw [List.getElem?_append_left hlt] at hi
      exact (h.covered i other hi hbad).imp id fun hb => hb.mono hmore
    · obtain ⟨hle, -⟩ := List.getElem?_eq_some_iff.mp hi
      have hlast : i = done.length := by
        rw [hlength, h.index] at hle
        omega
      subst hlast
      have hown : record = other := by simpa using hi
      subst hown
      rw [← h.index]
      exact hself hbad
  have hinner : inputs.adapter.eventOf record.event = .ok record.event := by
    rw [hadapter]
    rfl
  unfold checkVersion
  simp only [hinner, hstructural, bind, Except.bind]
  cases structural with
  | none => exact ⟨_, rfl, hkeep rfl h.issues (fun _ hi => hi) fun hbad => absurd rfl (hinvalid hbad)⟩
  | some detail =>
      dsimp only
      by_cases hreported : reported.any (sameSeq (.record walk.index record.seq)) = true
      · rw [if_pos hreported]
        exact ⟨_, rfl, hkeep rfl h.issues (fun _ hi => hi) fun _ => Or.inl hreported⟩
      · rw [if_neg hreported]
        refine ⟨_, rfl, hkeep rfl ?_ (fun _ hi => List.mem_append_left _ hi) fun _ => Or.inr ?_⟩
        · intro issue hi
          rcases List.mem_append.mp hi with hold | hnew
          · exact h.issues issue hold
          · rw [List.mem_singleton.mp hnew]
        · exact ⟨_, List.mem_append_right _ (List.mem_singleton_self _), rfl, sameSeq_refl _⟩

-- The checks of the events' own form never throw, and report each invalid event.
theorem verifyLedger_reports (hadapter : inputs.adapter = DEFAULT_ADAPTER) {chain : VerifyReport}
    (hchain : verifyChain P records inputs = .ok chain) :
    ∃ report, verifyLedger P records inputs = .ok report ∧
      ∀ i record, records[i]? = some record → firstSealedValidationError record.event ≠ none →
        Bears report.issues .schemaInvalid i record := by
  have hfold : ∃ walk, records.foldlM
      (checkVersion P inputs ((chain.issues.filter fun issue => issue.kind = .schemaInvalid).map VerifyIssue.seq))
      ⟨0, 0, []⟩ = .ok walk ∧
      Judged ((chain.issues.filter fun issue => issue.kind = .schemaInvalid).map VerifyIssue.seq) records walk := by
    generalize (chain.issues.filter fun issue => issue.kind = .schemaInvalid).map VerifyIssue.seq = reported
    have hstart : Judged reported [] ⟨0, 0, []⟩ := ⟨rfl, by simp, by simp⟩
    obtain ⟨walk, hwalk⟩ := (foldlM_isOk_iff (f := checkVersion P inputs reported) (Judged reported) (fun _ => True) records
      (fun _ _ _ _ _ hdone => ⟨fun _ => trivial, fun _ => (checkVersion_judged hadapter hdone).imp fun _ h => h.1⟩)
      (fun _ _ _ _ _ _ hdone hstep => by
        obtain ⟨after, hafter, hjudged⟩ := checkVersion_judged hadapter hdone
        obtain rfl := Except.ok.inj (hafter.symm.trans hstep)
        exact hjudged) hstart).mpr fun _ _ => trivial
    refine ⟨walk, hwalk, foldlM_ok_invariant (Judged reported) records (fun _ _ _ _ _ _ hdone hstep => ?_) hstart hwalk⟩
    obtain ⟨after, hafter, hjudged⟩ := checkVersion_judged hadapter hdone
    obtain rfl := Except.ok.inj (hafter.symm.trans hstep)
    exact hjudged
  obtain ⟨walk, hwalk, hjudged⟩ := hfold
  have hcovered (i : Nat) (record : StoredRecord) (hi : records[i]? = some record)
      (hbad : firstSealedValidationError record.event ≠ none) :
      Bears chain.issues .schemaInvalid i record ∨ Bears walk.issues .schemaInvalid i record := by
    rcases hjudged.covered i record hi hbad with hreported | hown
    · obtain ⟨seq, hseq, hsame⟩ := List.any_eq_true.mp hreported
      obtain ⟨issue, hissue, rfl⟩ := List.mem_map.mp hseq
      obtain ⟨hissue, hkind⟩ := List.mem_filter.mp hissue
      exact Or.inl ⟨issue, hissue, by simpa using hkind, hsame⟩
    · exact Or.inr hown
  unfold verifyLedger
  simp only [hchain, hwalk, bind, Except.bind]
  by_cases hnone : walk.issues.isEmpty = true
  · rw [if_pos hnone]
    refine ⟨chain, rfl, fun i record hi hbad => (hcovered i record hi hbad).resolve_right ?_⟩
    rintro ⟨issue, hissue, -⟩
    rw [List.isEmpty_iff.mp hnone] at hissue
    cases hissue
  · rw [if_neg hnone]
    refine ⟨_, rfl, fun i record hi hbad => ?_⟩
    rcases hcovered i record hi hbad with hold | hown
    · exact hold.mono fun _ hissue => List.mem_append_left _ hissue
    · exact hown.mono fun _ hissue => List.mem_append_right _ hissue

end

-- The verifier gives its reports, and each invalid event is one of the findings.
structure AlwaysReports (P : Primitives) (inputs : VerifyInputs) (records : List StoredRecord) : Prop where
  chain : ∃ report, verifyChain P records inputs = .ok report
  ledger : ∃ report, verifyLedger P records inputs = .ok report ∧
    ∀ i record, records[i]? = some record → firstSealedValidationError record.event ≠ none →
      Bears report.issues .schemaInvalid i record

-- The verifier reports exactly where nothing it turns into text or canonicalizes outside
-- its guard stands in the way.
theorem always_reports_iff {P : Primitives} {inputs : VerifyInputs} (records : List StoredRecord)
    (hplain : inputs.Plain) : AlwaysReports P inputs records ↔ LedgerReports P inputs records := by
  rw [← verifyChain_isOk_iff hplain]
  constructor
  · exact AlwaysReports.chain
  · rintro ⟨chain, hchain⟩
    exact ⟨⟨chain, hchain⟩, verifyLedger_reports hplain.adapter hchain⟩

section

open Reference

theorem plain_anchored (anchored : Option JsString) : (VerifyInputs.anchored anchored).Plain :=
  ⟨rfl, (fun _ h => nomatch h), ⟨(fun _ h => nomatch h), (fun _ h => nomatch h)⟩⟩

def EMPTY_RECORD : StoredRecord := ⟨none, none, none, none, none, none, none, none⟩

-- A record of which a text is left, and nothing else.
def strayRecord : StoredRecord := { EMPTY_RECORD with event := some (.str "gone") }

theorem strayRecord_reported : AlwaysReports primitives (.anchored none) [strayRecord] := by
  have habsent : HasText primitives none := ⟨"undefined", rfl⟩
  refine (always_reports_iff [strayRecord] (plain_anchored none)).mpr ⟨by simp [VerifyInputs.anchored], ?_, ?_, nofun⟩
  · refine (Each.append_singleton [] strayRecord).mpr ⟨Each.nil, fun _ => habsent, fun _ => ⟨?_, ?_⟩, ?_⟩
    · exact ⟨.str "gone", rfl, by simp, fun id hid => by cases hid⟩
    · exact fun h => by cases h
    · exact fun h => by cases h
  · intro record hr event he hobject
    obtain rfl := List.mem_singleton.mp hr
    obtain rfl := Option.some.inj he
    cases hobject

-- A record whose position has no primitive form.
def unplacedRecord : StoredRecord := { EMPTY_RECORD with seq := some (.obj [("toString", .num (.ofNat 1))]) }

theorem unplacedRecord_throws : ¬∀ (inputs : VerifyInputs) (records : List StoredRecord), inputs.Plain →
    AlwaysReports primitives inputs records := by
  intro h
  obtain ⟨report, hreport⟩ := (h (.anchored none) [unplacedRecord] (plain_anchored none)).chain
  obtain ⟨walk, events, gaps, digest, hv⟩ := verifyChain_verified hreport
  have hwalked := hv.walked
  rw [List.foldlM_cons] at hwalked
  obtain ⟨after, hafter, -⟩ := bind_ok hwalked
  obtain ⟨placed, hplaced, -⟩ := bind_ok hafter
  obtain ⟨text, htext⟩ := checkSequence_text hplaced
  have hthrows : stringOfOption primitives unplacedRecord.seq = .error .typeError := by
    simp [unplacedRecord, stringOfOption, stringOf, Json.lookup]
  rw [hthrows] at htext
  cases htext

end

end AuditableMcp
