import AuditableMcp.Library.Fold
import AuditableMcp.Verify.Ledger

namespace AuditableMcp

-- Whether an issue of this kind was found about the record at this position.
def VerifyIssue.concerns (issue : VerifyIssue) (kind : Tier1Code) (i : Nat) : Prop :=
  issue.kind = kind ∧ ∃ seq, issue.seq = .record i seq

-- One phase of the loop reported an issue of this kind about its record, where the
-- condition held, and did nothing else to the walk.
def Reports (record : StoredRecord) (kind : Tier1Code) (found : Prop) (before after : Walk) : Prop :=
  (found ∧ ∃ detail, after = before.report record kind detail) ∨ (¬found ∧ after = before)

theorem Reports.fields {record : StoredRecord} {kind : Tier1Code} {found : Prop} {before after : Walk}
    (h : Reports record kind found before after) :
    after.index = before.index ∧ after.prevRecomputed = before.prevRecomputed ∧
      after.attempted = before.attempted ∧ after.numbered = before.numbered := by
  rcases h with ⟨-, detail, rfl⟩ | ⟨-, rfl⟩ <;> exact ⟨rfl, rfl, rfl, rfl⟩

-- What the phases after the hash may add besides: nothing the chain, the correlation
-- or the numbering are told by.
structure Adds (record : StoredRecord) (allowed : List Tier1Code) (before after : Walk) : Prop where
  issues : ∃ new, after.issues = before.issues ++ new ∧
    ∀ issue ∈ new, issue.kind ∈ allowed ∧ issue.seq = .record before.index record.seq
  index : after.index = before.index
  attempted : after.attempted = before.attempted
  numbered : after.numbered = before.numbered
  prevRecomputed : after.prevRecomputed = before.prevRecomputed

namespace Adds

variable {record : StoredRecord} {allowed : List Tier1Code} {a b c : Walk}

theorem refl (walk : Walk) : Adds record allowed walk walk :=
  ⟨⟨[], by simp, by simp⟩, rfl, rfl, rfl, rfl⟩

theorem report (walk : Walk) {kind : Tier1Code} (detail : AnomalyDetail) (hkind : kind ∈ allowed) :
    Adds record allowed walk (walk.report record kind detail) :=
  ⟨⟨_, rfl, by simp [hkind]⟩, rfl, rfl, rfl, rfl⟩

theorem trans (hab : Adds record allowed a b) (hbc : Adds record allowed b c) : Adds record allowed a c := by
  obtain ⟨first, hfirst, hf⟩ := hab.issues
  obtain ⟨second, hsecond, hs⟩ := hbc.issues
  refine ⟨⟨first ++ second, by rw [hsecond, hfirst, List.append_assoc], ?_⟩, by rw [hbc.index, hab.index],
    by rw [hbc.attempted, hab.attempted], by rw [hbc.numbered, hab.numbered],
    by rw [hbc.prevRecomputed, hab.prevRecomputed]⟩
  intro issue hi
  rcases List.mem_append.mp hi with hm | hm
  · exact hf issue hm
  · rw [← hab.index]
    exact hs issue hm

theorem mono {more : List Tier1Code} (h : Adds record allowed a b) (hmore : ∀ kind ∈ allowed, kind ∈ more) :
    Adds record more a b := by
  obtain ⟨new, hnew, hn⟩ := h.issues
  exact ⟨⟨new, hnew, fun issue hi => ⟨hmore _ (hn issue hi).1, (hn issue hi).2⟩⟩, h.index, h.attempted, h.numbered,
    h.prevRecomputed⟩

end Adds

-- The same without a word about the correlation and the numbering.
structure Finds (record : StoredRecord) (allowed : List Tier1Code) (before after : Walk) : Prop where
  issues : ∃ new, after.issues = before.issues ++ new ∧
    ∀ issue ∈ new, issue.kind ∈ allowed ∧ issue.seq = .record before.index record.seq
  index : after.index = before.index
  prevRecomputed : after.prevRecomputed = before.prevRecomputed

theorem Finds.trans {record : StoredRecord} {allowed : List Tier1Code} {a b c : Walk}
    (hab : Finds record allowed a b) (hbc : Finds record allowed b c) : Finds record allowed a c := by
  obtain ⟨first, hfirst, hf⟩ := hab.issues
  obtain ⟨second, hsecond, hs⟩ := hbc.issues
  refine ⟨⟨first ++ second, by rw [hsecond, hfirst, List.append_assoc], ?_⟩, by rw [hbc.index, hab.index],
    by rw [hbc.prevRecomputed, hab.prevRecomputed]⟩
  intro issue hi
  rcases List.mem_append.mp hi with hm | hm
  · exact hf issue hm
  · rw [← hab.index]
    exact hs issue hm

theorem Finds.mono {record : StoredRecord} {allowed more : List Tier1Code} {a b : Walk}
    (h : Finds record allowed a b) (hmore : ∀ kind ∈ allowed, kind ∈ more) : Finds record more a b := by
  obtain ⟨new, hnew, hn⟩ := h.issues
  exact ⟨⟨new, hnew, fun issue hi => ⟨hmore _ (hn issue hi).1, (hn issue hi).2⟩⟩, h.index, h.prevRecomputed⟩

theorem Adds.finds {record : StoredRecord} {allowed : List Tier1Code} {a b : Walk}
    (h : Adds record allowed a b) : Finds record allowed a b := ⟨h.issues, h.index, h.prevRecomputed⟩

section Phases

variable {P : Primitives} {inputs : VerifyInputs} {record : StoredRecord} {walk after : Walk}

theorem checkSequence_reports (h : checkSequence P record walk = .ok after) :
    Reports record .seqGap (Json.strictEq record.seq (some (.num (.ofNat walk.index))) = false) walk after := by
  unfold checkSequence at h
  split at h
  · rename_i heq
    exact Or.inr ⟨by simp [heq], (Except.ok.inj h).symm⟩
  · rename_i hne
    obtain ⟨text, -, h⟩ := bind_ok h
    exact Or.inl ⟨by simpa using hne, _, (pure_ok h).symm⟩

-- The findings about who a record is from.
def identityKinds : List Tier1Code := [.principalMismatch, .hostSignatureInvalid]

-- The findings that an out-of-band input is behind.
def outOfBand : List Tier1Code := .signatureInvalid :: identityKinds

theorem Adds.outOfBand {record : StoredRecord} {a b : Walk} (h : Adds record identityKinds a b) :
    Adds record outOfBand a b := h.mono fun _ hk => List.mem_cons_of_mem _ hk

theorem checkPrincipal_adds (h : checkPrincipal P inputs record walk = .ok after) :
    Adds record identityKinds walk after := by
  unfold checkPrincipal at h
  split at h
  · rw [← Except.ok.inj h]
    exact .refl walk
  · obtain ⟨principal, -, h⟩ := bind_ok h
    split at h
    · rw [← pure_ok h]
      exact .refl walk
    · obtain ⟨text, -, h⟩ := bind_ok h
      rw [← pure_ok h]
      exact .report walk _ (by simp [identityKinds])

theorem checkTriple_adds {hashable : Bool} (h : checkTriple P inputs record walk hashable = .ok after) :
    Adds record identityKinds walk after := by
  unfold checkTriple at h
  split at h
  · rw [← Except.ok.inj h]
    exact .report walk _ (by simp [identityKinds])
  · split at h
    · rw [← Except.ok.inj h]
      exact .report walk _ (by simp [identityKinds])
    · split at h
      · split at h
        · rw [← Except.ok.inj h]
          exact ⟨⟨[], by simp, by simp⟩, rfl, rfl, rfl, rfl⟩
        · obtain ⟨payload, -, h⟩ := bind_ok h
          obtain ⟨valid, -, h⟩ := bind_ok h
          split at h
          · rw [← pure_ok h]
            exact .refl walk
          · obtain ⟨text, -, h⟩ := bind_ok h
            rw [← pure_ok h]
            exact .report walk _ (by simp [identityKinds])
      · rw [← Except.ok.inj h]
        exact .refl walk

theorem checkIdentity_adds (h : checkIdentity P inputs record walk = .ok after) :
    Adds record identityKinds walk after := by
  unfold checkIdentity at h
  split at h
  · rw [← Except.ok.inj h]
    exact .refl walk
  · split at h
    · rw [← Except.ok.inj h]
      exact .report walk _ (by simp [identityKinds])
    · split at h
      · obtain ⟨text, -, h⟩ := bind_ok h
        rw [← pure_ok h]
        exact .report walk _ (by simp [identityKinds])
      · obtain ⟨text, -, h⟩ := bind_ok h
        rw [← pure_ok h]
        unfold Walk.reportIf
        split
        · exact .report walk _ (by simp [identityKinds])
        · exact .refl walk

theorem checkCountersignature_adds {hashable : Bool}
    (h : checkCountersignature P inputs record walk hashable = .ok after) : Adds record identityKinds walk after := by
  obtain ⟨middle, ht, h⟩ := bind_ok h
  exact (checkTriple_adds ht).trans (checkIdentity_adds h)

theorem checkSignature_adds {inner : Option Json} (h : checkSignature inputs record walk inner = .ok after) :
    Adds record [.signatureInvalid] walk after := by
  unfold checkSignature at h
  split at h
  · rw [← Except.ok.inj h]
    exact .refl walk
  · split at h
    · rw [← Except.ok.inj h]
      exact ⟨⟨[], by simp, by simp⟩, rfl, rfl, rfl, rfl⟩
    · obtain ⟨valid, -, h⟩ := bind_ok h
      split at h
      · rw [← pure_ok h]
        exact .refl walk
      · rw [← pure_ok h]
        exact .report walk _ (by simp)

-- What the check of an event's signature may find, for a record of its own.
def SignatureFinds (inputs : VerifyInputs) (record : StoredRecord) (kinds : List Tier1Code) : Prop :=
  ∀ inner before after, inputs.adapter.eventOf record.event = .ok inner →
    checkSignature inputs record before inner = .ok after → Adds record kinds before after

theorem signatureFinds_any : SignatureFinds inputs record [.signatureInvalid] :=
  fun _ _ _ _ h => checkSignature_adds h

-- Where the checker accepts the event, nothing.
theorem signatureFinds_none {event : Json} {checker : Json → Except JsError Bool}
    (hevent : inputs.adapter.eventOf record.event = .ok (some event)) (hchecker : inputs.signatureChecker = some checker)
    (haccepts : checker event = .ok true) : SignatureFinds inputs record [] := by
  intro inner before after hinner h
  obtain rfl := Except.ok.inj (hevent.symm.trans hinner)
  unfold checkSignature at h
  split at h
  · rw [← Except.ok.inj h]
    exact .refl before
  · rename_i read hread
    have hsame : read = event := by
      obtain ⟨hi, -⟩ := Option.filter_eq_some_iff.mp hread
      obtain ⟨he, -⟩ := Option.filter_eq_some_iff.mp hi
      exact (Option.some.inj he).symm
    rw [hchecker] at h
    obtain ⟨valid, hvalid, h⟩ := bind_ok h
    rw [hsame, haccepts] at hvalid
    obtain rfl := Except.ok.inj hvalid
    rw [← pure_ok h]
    exact .refl before

theorem correlate_finds {inner : Option Json} (h : correlate P inputs record walk inner = .ok after) :
    Finds record [.orphanedOutcome] walk after := by
  obtain ⟨operation, -, h⟩ := bind_ok h
  cases operation with
  | none =>
      rw [← pure_ok h]
      exact (Adds.refl walk).finds
  | some entry =>
      obtain ⟨key, eventId⟩ := entry
      obtain ⟨attempt, -, h⟩ := bind_ok h
      split at h
      · rw [← pure_ok h]
        exact ⟨⟨[], by simp, by simp⟩, rfl, rfl⟩
      · split at h
        · obtain ⟨text, -, h⟩ := bind_ok h
          rw [← pure_ok h]
          exact (Adds.report walk _ (by simp)).finds
        · rw [← pure_ok h]
          exact (Adds.refl walk).finds

theorem checkReplayed_finds {inner : Option Json} (h : checkReplayed P record walk inner = .ok after) :
    Finds record [.replayDetected] walk after := by
  unfold checkReplayed at h
  split at h
  · rw [← Except.ok.inj h]
    exact (Adds.refl walk).finds
  · dsimp only at h
    split at h
    · obtain ⟨text, -, h⟩ := bind_ok h
      rw [← pure_ok h]
      exact (Adds.report walk _ (by simp)).finds
    · rw [← Except.ok.inj h]
      exact ⟨⟨[], by simp, by simp⟩, rfl, rfl⟩

-- The findings about neither the chain itself nor an event's signature.
def besideSignature : List Tier1Code := .orphanedOutcome :: .replayDetected :: identityKinds

-- The findings that are not about the chain itself.
def besideChain : List Tier1Code := .signatureInvalid :: besideSignature

-- A record whose hash was recomputed: what it finds beside the two links is not about the chain.
theorem checkHashable_finds {recomputed : JsString} {kinds : List Tier1Code}
    (hsignature : SignatureFinds inputs record kinds)
    (h : checkHashable P inputs record recomputed walk = .ok after) :
    after.index = walk.index + 1 ∧ after.prevRecomputed = some (.str recomputed) ∧
      ∃ last, Finds record (kinds ++ besideSignature) (checkHashes record walk recomputed) last ∧
        after.issues = last.issues := by
  obtain ⟨inner, hinner, h⟩ := bind_ok h
  obtain ⟨correlated, hc, h⟩ := bind_ok h
  obtain ⟨replayed, hr, h⟩ := bind_ok h
  obtain ⟨principal, hp, h⟩ := bind_ok h
  obtain ⟨verified, hv, h⟩ := bind_ok h
  obtain ⟨last, hl, h⟩ := bind_ok h
  have hfinds : Finds record (kinds ++ besideSignature) (checkHashes record walk recomputed) last :=
    (((((correlate_finds hc).mono (by simp [besideSignature])).trans
      ((checkReplayed_finds hr).mono (by simp [besideSignature]))).trans
      ((checkPrincipal_adds hp).finds.mono fun kind hk => by simp [besideSignature, hk])).trans
      ((hsignature inner _ _ hinner hv).finds.mono fun kind hk => by simp [hk])).trans
      ((checkCountersignature_adds hl).finds.mono fun kind hk => by simp [besideSignature, hk])
  have hindex : (checkHashes record walk recomputed).index = walk.index := by
    unfold checkHashes Walk.reportIf
    split <;> split <;> rfl
  rw [← pure_ok h]
  exact ⟨by rw [← hindex, ← hfinds.index], rfl, last, hfinds, rfl⟩

theorem checkUnhashable_finds {message : JsString}
    (h : checkUnhashable P inputs record message walk = .ok after) :
    after.index = walk.index + 1 ∧ after.prevRecomputed = record.record_hash ∧
      ∃ last, Finds record identityKinds (walk.report record .schemaInvalid (.text message)) last ∧
        after.issues = last.issues := by
  obtain ⟨principal, hp, h⟩ := bind_ok h
  obtain ⟨last, hl, h⟩ := bind_ok h
  have hfinds := (checkPrincipal_adds hp).finds.trans (checkCountersignature_adds hl).finds
  rw [← pure_ok h]
  exact ⟨by rw [show last.index = _ from hfinds.index]; rfl, rfl, last, hfinds, rfl⟩

end Phases

-- A report of `verifyChain`, taken apart.
structure Verified (P : Primitives) (records : List StoredRecord) (inputs : VerifyInputs) (report : VerifyReport)
    (walk : Walk) (events : List (Option Json)) (gaps : List UnaccountedSignerSeq)
    (digest : List VerifyIssue) : Prop where
  walked : records.foldlM (verifyRecord P inputs) Walk.start = .ok walk
  read : (records.mapM fun record => inputs.adapter.eventOf record.event) = .ok events
  accounted : unaccountedSignerSeq P events = .ok gaps
  compared : digestIssues P inputs.anchoredDigest walk.prevRecomputed = .ok digest
  issues : report.issues = walk.issues ++ gaps.map (gapIssue P) ++ digest
  computedDigest : report.computedDigest = walk.prevRecomputed

theorem verifyChain_verified {P : Primitives} {records : List StoredRecord} {inputs : VerifyInputs}
    {report : VerifyReport} (h : verifyChain P records inputs = .ok report) :
    ∃ walk events gaps digest, Verified P records inputs report walk events gaps digest := by
  unfold verifyChain at h
  split at h
  · cases h
  · obtain ⟨walk, hwalk, h⟩ := bind_ok h
    obtain ⟨events, hevents, h⟩ := bind_ok h
    obtain ⟨gaps, hgaps, h⟩ := bind_ok h
    obtain ⟨digest, hdigest, h⟩ := bind_ok h
    obtain rfl := pure_ok h
    exact ⟨walk, events, gaps, digest, hwalk, hevents, hgaps, hdigest, rfl, rfl⟩

theorem digestIssues_kind {P : Primitives} {anchored : Option JsString} {computed : Option Json}
    {issues : List VerifyIssue} (h : digestIssues P anchored computed = .ok issues) :
    (∀ issue ∈ issues, issue.kind = .digestMismatch ∧ issue.seq = .ledger) ∧
      (issues = [] ↔ ∀ digest, anchored = some digest → computed = some (.str digest)) := by
  unfold digestIssues at h
  split at h
  · obtain rfl := Except.ok.inj h
    simp
  · rename_i digest
    split at h
    · rename_i heq
      obtain rfl := Except.ok.inj h
      have : computed = some (.str digest) := by
        unfold Json.strictEq at heq
        cases computed with
        | none => simp at heq
        | some value => cases value <;> simp_all
      simp [this]
    · rename_i hne
      obtain ⟨text, -, h⟩ := bind_ok h
      obtain rfl := pure_ok h
      simp only [List.mem_singleton, forall_eq, and_self, List.cons_ne_nil, Option.some.injEq, forall_eq',
        true_and, false_iff]
      rintro rfl
      simp [Json.strictEq] at hne

end AuditableMcp
