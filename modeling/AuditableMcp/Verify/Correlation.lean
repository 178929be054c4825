import AuditableMcp.Verify.Walks

-- What the walk learns from a bare event, read through the default adapter.
namespace AuditableMcp

-- The operation an event is correlated under.
def eventOperation (P : Primitives) (event : Json) : Except JsError (Option OperationKey) :=
  match event.get Fields.ID with
  | none => return none
  | some .null => return none
  | some id =>
      if isSessionScoped event then do
        let key ← operationKey P (event.get Fields.SESSION_ID) (some id)
        return some key
      else do
        let call ← stringOfOption P (event.get Fields.CALL_ID)
        let text ← stringOf P id
        return some (.call call text)

-- A walk reported a finding of this kind about the record at this position.
def Walk.Reported (walk : Walk) (kind : Tier1Code) (i : Nat) : Prop := ∃ issue ∈ walk.issues, issue.concerns kind i

section

variable {record : StoredRecord} {kind : Tier1Code} {before after : Walk} {i : Nat}

theorem Walk.reported_report (walk : Walk) (record : StoredRecord) (detail : AnomalyDetail) (other : Tier1Code) :
    (walk.report record kind detail).Reported other i ↔
      walk.Reported other i ∨ (other = kind ∧ i = walk.index) := by
  simp only [Walk.Reported, Walk.report, List.mem_append, List.mem_singleton, or_and_right, exists_or,
    exists_eq_left, VerifyIssue.concerns, IssueSeq.record.injEq, exists_and_left]
  constructor
  · rintro (h | ⟨rfl, rfl, -⟩)
    · exact Or.inl h
    · exact Or.inr ⟨rfl, rfl⟩
  · rintro (h | ⟨rfl, rfl⟩)
    · exact Or.inl h
    · exact Or.inr ⟨rfl, rfl, record.seq, rfl⟩

theorem Reports.reported {found : Prop} (h : Reports record kind found before after) (other : Tier1Code) :
    after.Reported other i ↔ before.Reported other i ∨ (other = kind ∧ i = before.index ∧ found) := by
  rcases h with ⟨hfound, detail, rfl⟩ | ⟨hnot, rfl⟩
  · rw [Walk.reported_report]
    simp [hfound]
  · simp [hnot]

theorem Finds.reported {allowed : List Tier1Code} (h : Finds record allowed before after) (hkind : kind ∉ allowed) :
    after.Reported kind i ↔ before.Reported kind i := by
  obtain ⟨new, hnew, hn⟩ := h.issues
  unfold Walk.Reported
  rw [hnew]
  constructor
  · rintro ⟨issue, hi, hc⟩
    rcases List.mem_append.mp hi with hb | hm
    · exact ⟨issue, hb, hc⟩
    · exact absurd (hn issue hm).1 (by rw [hc.1]; exact hkind)
  · rintro ⟨issue, hi, hc⟩
    exact ⟨issue, List.mem_append_left _ hi, hc⟩

end

section

variable {P : Primitives} {inputs : VerifyInputs} {record : StoredRecord} {walk after : Walk}
  {members : List (JsString × Json)}

theorem innerObject_obj : innerObject (some (.obj members)) = some (.obj members) := rfl

theorem filter_scoped_obj : ((innerObject (some (.obj members))).filter fun event => !isSessionScoped event) =
    if isSessionScoped (.obj members) then none else some (.obj members) := by
  rw [innerObject_obj, Option.filter]
  cases isSessionScoped (.obj members) <;> rfl

-- Read through the default adapter, an object is correlated under its own operation.
theorem operationOf_default (hadapter : inputs.adapter = DEFAULT_ADAPTER)
    (hevent : record.event = some (.obj members)) :
    operationOf P inputs record (some (.obj members)) =
      (eventOperation P (.obj members)).map fun operation =>
        operation.map fun key => (key, Json.get (.obj members) Fields.ID) := by
  have hid : inputs.adapter.idOf record.event = .ok (Json.get (.obj members) Fields.ID) := by
    rw [hadapter, hevent]
    rfl
  have hsession : callOptional inputs.adapter.sessionOf record.event =
      .ok (Json.get (.obj members) Fields.SESSION_ID) := by
    rw [hadapter, hevent]
    rfl
  unfold operationOf eventOperation
  rw [hid, filter_scoped_obj, hsession]
  cases hget : Json.get (.obj members) Fields.ID with
  | none => rfl
  | some id =>
      cases hscoped : isSessionScoped (.obj members) with
      | true =>
          cases hkey : operationKey P (Json.get (.obj members) Fields.SESSION_ID) (some id) <;>
            cases id <;> simp [bind, Except.bind, pure, Except.pure, Except.map, hkey]
      | false =>
          cases hcall : stringOfOption P (Json.get (.obj members) Fields.CALL_ID) with
          | error e => cases id <;> simp [bind, Except.bind, pure, Except.pure, Except.map, hcall]
          | ok call =>
              cases htext : stringOf P id <;> cases id <;>
                simp [bind, Except.bind, pure, Except.pure, Except.map, hcall, htext]

-- The attempts and the findings after an event was correlated.
structure Correlated (P : Primitives) (record : StoredRecord) (event : Json) (operation : Option OperationKey)
    (walk after : Walk) : Prop where
  attempted : ∀ key, key ∈ after.attempted ↔
    key ∈ walk.attempted ∨ (operation = some key ∧ isAttempted event = true)
  reports : ∀ kind i, after.Reported kind i ↔ walk.Reported kind i ∨
    (kind = .orphanedOutcome ∧ i = walk.index ∧ isAttempted event = false ∧
      Json.isText (event.get Fields.OUTCOME) Outcome.ABORTED = false ∧
      ∃ key, operation = some key ∧ key ∉ walk.attempted)
  numbered : after.numbered = walk.numbered

theorem correlate_correlated (hadapter : inputs.adapter = DEFAULT_ADAPTER)
    (hevent : record.event = some (.obj members))
    (h : correlate P inputs record walk (some (.obj members)) = .ok after) :
    ∃ operation, eventOperation P (.obj members) = .ok operation ∧
      Correlated P record (.obj members) operation walk after := by
  have hattempt : inputs.adapter.isAttempt record.event = .ok (isAttempted (.obj members)) := by
    rw [hadapter, hevent]
    rfl
  obtain ⟨found, hoperation, h⟩ := bind_ok h
  rw [operationOf_default hadapter hevent] at hoperation
  cases heo : eventOperation P (.obj members) with
  | error e => simp [heo, Except.map] at hoperation
  | ok operation =>
      refine ⟨operation, rfl, ?_⟩
      rw [heo] at hoperation
      obtain rfl := Except.ok.inj hoperation
      cases operation with
      | none =>
          obtain rfl := pure_ok h
          exact ⟨by simp, by simp, rfl⟩
      | some key =>
          have hrefusal : isRefusal (some (.obj members)) =
            Json.isText (Json.get (.obj members) Fields.OUTCOME) Outcome.ABORTED := rfl
          simp only [Option.map_some, hattempt] at h
          obtain ⟨attempt, ha, h⟩ := bind_ok h
          obtain rfl := Except.ok.inj ha
          cases hatt : isAttempted (.obj members) with
          | true =>
              rw [hatt] at h
              obtain rfl := pure_ok h
              refine ⟨fun other => ?_, fun kind i => by simp [Walk.Reported, hatt], rfl⟩
              rw [mem_addTo, Option.some.injEq, hatt, eq_comm]
              simp
          | false =>
              simp only [hatt, Bool.false_eq_true, ite_false] at h
              by_cases horphan : key ∉ walk.attempted ∧ isRefusal (some (.obj members)) = false
              · rw [if_pos horphan] at h
                rw [hrefusal] at horphan
                obtain ⟨text, -, h⟩ := bind_ok h
                obtain rfl := pure_ok h
                refine ⟨by simp [Walk.report, hatt], fun kind i => ?_, rfl⟩
                rw [Walk.reported_report]
                simp [horphan.1, horphan.2, hatt]
              · rw [if_neg horphan] at h
                rw [hrefusal] at horphan
                obtain rfl := pure_ok h
                refine ⟨by simp [hatt], fun kind i => ?_, rfl⟩
                simp only [Option.some.injEq, exists_eq_left', hatt, true_and]
                exact ⟨Or.inl, fun h => h.elim id fun hb => absurd ⟨hb.2.2.2, hb.2.2.1⟩ horphan⟩

-- Correlation throws exactly where a member it reads has no text.
theorem correlate_isOk (hadapter : inputs.adapter = DEFAULT_ADAPTER)
    (hevent : record.event = some (.obj members)) (walk : Walk) :
    (∃ after, correlate P inputs record walk (some (.obj members)) = .ok after) ↔
      ∃ operation, eventOperation P (.obj members) = .ok operation := by
  constructor
  · rintro ⟨after, h⟩
    obtain ⟨operation, h, -⟩ := correlate_correlated hadapter hevent h
    exact ⟨operation, h⟩
  · rintro ⟨operation, h⟩
    have hattempt : inputs.adapter.isAttempt record.event = .ok (isAttempted (.obj members)) := by
      rw [hadapter, hevent]
      rfl
    unfold correlate
    rw [operationOf_default hadapter hevent, h]
    cases operation with
    | none => exact ⟨walk, rfl⟩
    | some key =>
        have htext : ∃ text, stringOfOption P (Json.get (.obj members) Fields.ID) = .ok text := by
          unfold eventOperation at h
          split at h
          · cases pure_ok h
          · cases pure_ok h
          · rename_i id hne hid
            rw [hid]
            split at h
            · obtain ⟨_, h, -⟩ := bind_ok h
              obtain ⟨_, -, h⟩ := bind_ok h
              obtain ⟨text, h, -⟩ := bind_ok h
              exact ⟨text, h⟩
            · obtain ⟨_, -, h⟩ := bind_ok h
              obtain ⟨text, h, -⟩ := bind_ok h
              exact ⟨text, h⟩
        obtain ⟨text, htext⟩ := htext
        simp only [Except.map, Option.map_some, bind, Except.bind, hattempt, htext, pure, Except.pure]
        split
        · exact ⟨_, rfl⟩
        · split <;> exact ⟨_, rfl⟩

-- The key an event's number is taken under, in a session.
def eventNumber (event : Json) : Option NumberKey :=
  if isSessionScoped event then (sessionNumber event).map fun number => numberKey number.1 number.2.1 number.2.2
  else none

-- A number the walk has seen under a record that has a position.
def Walk.Numbered (walk : Walk) (key : NumberKey) : Prop := ∃ first, walk.numbered.get key = some (some first)

-- The numbers and the findings after an event's own number was compared.
structure Compared (event : Json) (record : StoredRecord) (walk after : Walk) : Prop where
  numbered : record.seq.isSome = true → ∀ key, after.Numbered key ↔ walk.Numbered key ∨ eventNumber event = some key
  first : ∀ key first, after.numbered.get key = some (some first) →
    walk.numbered.get key = some (some first) ∨ record.seq = some first
  reports : ∀ kind i, after.Reported kind i ↔ walk.Reported kind i ∨
    (kind = .replayDetected ∧ i = walk.index ∧ ∃ key, eventNumber event = some key ∧ walk.Numbered key)
  attempted : after.attempted = walk.attempted

theorem filter_session_obj : ((innerObject (some (.obj members))).filter fun event => isSessionScoped event) =
    if isSessionScoped (.obj members) then some (.obj members) else none := by
  rw [innerObject_obj, Option.filter]

theorem numberOf_obj : ((innerObject (some (.obj members))).filter fun event => isSessionScoped event).bind
    sessionNumber = if isSessionScoped (.obj members) then sessionNumber (.obj members) else none := by
  rw [filter_session_obj]
  split <;> rfl

theorem checkReplayed_compared (h : checkReplayed P record walk (some (.obj members)) = .ok after) :
    Compared (.obj members) record walk after := by
  unfold checkReplayed at h
  rw [numberOf_obj] at h
  cases hscoped : isSessionScoped (.obj members) with
  | false =>
      simp only [hscoped, Bool.false_eq_true, ite_false] at h
      obtain rfl := Except.ok.inj h
      exact ⟨by simp [eventNumber, hscoped], fun _ _ => Or.inl, by simp [eventNumber, hscoped], rfl⟩
  | true =>
      simp only [hscoped, ite_true] at h
      cases hnumber : sessionNumber (.obj members) with
      | none =>
          simp only [hnumber] at h
          obtain rfl := Except.ok.inj h
          exact ⟨by simp [eventNumber, hnumber], fun _ _ => Or.inl, by simp [eventNumber, hnumber], rfl⟩
      | some number =>
          obtain ⟨keyId, sessionId, signerSeq⟩ := number
          have hkey : eventNumber (.obj members) = some (numberKey keyId sessionId signerSeq) := by
            simp [eventNumber, hscoped, hnumber]
          simp only [hnumber] at h
          split at h
          · rename_i first hfirst
            obtain ⟨text, -, h⟩ := bind_ok h
            obtain rfl := pure_ok h
            have hseen : walk.Numbered (numberKey keyId sessionId signerSeq) := ⟨first, hfirst⟩
            refine ⟨fun _ key => ?_, fun _ _ => Or.inl, fun kind i => ?_, rfl⟩
            · rw [hkey, Option.some.injEq]
              exact ⟨Or.inl, fun h => h.elim id fun he => he ▸ hseen⟩
            · rw [Walk.reported_report, hkey]
              simp [hseen]
          · rename_i hnone
            obtain rfl := Except.ok.inj h
            have hunseen : ¬walk.Numbered (numberKey keyId sessionId signerSeq) := fun h => hnone h.choose h.choose_spec
            refine ⟨fun hseq key => ?_, fun key first hf => ?_, fun kind i => ?_, rfl⟩
            · obtain ⟨seq, hseq⟩ := Option.isSome_iff_exists.mp hseq
              unfold Walk.Numbered
              simp only [OrderedMap.get_set, hkey, hseq, Option.some.injEq]
              by_cases he : numberKey keyId sessionId signerSeq = key <;> simp [he]
            · simp only [OrderedMap.get_set] at hf
              split at hf
              · exact Or.inr (Option.some.inj hf)
              · exact Or.inl hf
            · rw [hkey]
              simp [Walk.Reported, hunseen]

theorem checkReplayed_isOk (record : StoredRecord)
    (htexts : ∀ key first, walk.numbered.get key = some (some first) → ∃ text, stringOf P first = .ok text)
    (inner : Option Json) : ∃ after, checkReplayed P record walk inner = .ok after := by
  unfold checkReplayed
  split
  · exact ⟨_, rfl⟩
  · dsimp only
    split
    · rename_i first hfirst
      obtain ⟨text, htext⟩ := htexts _ first hfirst
      rw [htext]
      exact ⟨_, rfl⟩
    · exact ⟨_, rfl⟩

end

section

variable {P : Primitives} {inputs : VerifyInputs} {record : StoredRecord} {walk after : Walk}
  {members : List (JsString × Json)}

-- What a walk knows after a record whose hash was recomputed.
structure Learned (P : Primitives) (event : Json) (record : StoredRecord) (walk after : Walk) : Prop where
  operation : ∃ operation, eventOperation P event = .ok operation ∧
    (∀ key, key ∈ after.attempted ↔ key ∈ walk.attempted ∨ (operation = some key ∧ isAttempted event = true)) ∧
    ∀ i, after.Reported .orphanedOutcome i ↔ walk.Reported .orphanedOutcome i ∨
      (i = walk.index ∧ isAttempted event = false ∧
        Json.isText (event.get Fields.OUTCOME) Outcome.ABORTED = false ∧
        ∃ key, operation = some key ∧ key ∉ walk.attempted)
  numbered : record.seq.isSome = true → ∀ key, after.Numbered key ↔ walk.Numbered key ∨ eventNumber event = some key
  first : ∀ key first, after.numbered.get key = some (some first) →
    walk.numbered.get key = some (some first) ∨ record.seq = some first
  replays : ∀ i, after.Reported .replayDetected i ↔ walk.Reported .replayDetected i ∨
    (i = walk.index ∧ ∃ key, eventNumber event = some key ∧ walk.Numbered key)

theorem checkHashes_finds (record : StoredRecord) (walk : Walk) (recomputed : JsString) :
    Adds record [.recordHashMismatch] walk (checkHashes record walk recomputed) := by
  unfold checkHashes Walk.reportIf
  split
  · split
    · exact (Adds.report walk _ (by simp)).trans (.report _ _ (by simp))
    · exact .report walk _ (by simp)
  · split
    · exact .report walk _ (by simp)
    · exact .refl walk

theorem checkHashable_learned (hadapter : inputs.adapter = DEFAULT_ADAPTER) {recomputed : JsString}
    (hevent : record.event = some (.obj members))
    (h : checkHashable P inputs record recomputed walk = .ok after) :
    Learned P (.obj members) record walk after := by
  have hinner : inputs.adapter.eventOf record.event = .ok (some (.obj members)) := by rw [hadapter, hevent]; rfl
  unfold checkHashable at h
  simp only [hinner] at h
  have hhashes := checkHashes_finds record walk recomputed
  generalize checkHashes record walk recomputed = hashed at h hhashes
  obtain ⟨inner, hi, h⟩ := bind_ok h
  obtain rfl := Except.ok.inj hi
  obtain ⟨correlated, hc, h⟩ := bind_ok h
  obtain ⟨replayed, hr, h⟩ := bind_ok h
  obtain ⟨principal, hp, h⟩ := bind_ok h
  obtain ⟨verified, hv, h⟩ := bind_ok h
  obtain ⟨last, hl, h⟩ := bind_ok h
  obtain rfl := pure_ok h
  obtain ⟨operation, hoperation, hcorrelated⟩ := correlate_correlated hadapter hevent hc
  have hcompared := checkReplayed_compared hr
  have hrest : Adds record outOfBand replayed last :=
    ((checkPrincipal_adds hp).outOfBand.trans ((checkSignature_adds hv).mono (by simp [outOfBand]))).trans
      (checkCountersignature_adds hl).outOfBand
  have hreported (kind : Tier1Code) (hkind : kind ∉ outOfBand) (hmismatch : kind ≠ .recordHashMismatch) (i : Nat) :
      (last.Reported kind i ↔ replayed.Reported kind i) ∧ (hashed.Reported kind i ↔ walk.Reported kind i) :=
    ⟨hrest.finds.reported hkind, hhashes.finds.reported (by simpa using hmismatch)⟩
  have hindex : correlated.index = walk.index := by rw [(correlate_finds hc).index, hhashes.index]
  refine ⟨⟨operation, hoperation, fun key => ?_, fun i => ?_⟩, fun hseq key => ?_, fun key first hf => ?_, fun i => ?_⟩
  · show key ∈ last.attempted ↔ _
    rw [hrest.attempted, hcompared.attempted, hcorrelated.attempted, hhashes.attempted]
  · obtain ⟨hlast, hstart⟩ := hreported .orphanedOutcome (by simp [outOfBand, identityKinds]) (by simp) i
    show last.Reported _ _ ↔ _
    rw [hlast, hcompared.reports, hcorrelated.reports, hstart, hhashes.index, hhashes.attempted]
    simp
  · show (∃ first, last.numbered.get key = some (some first)) ↔ _
    rw [hrest.numbered]
    have := hcompared.numbered hseq key
    unfold Walk.Numbered at this ⊢
    rw [this, hcorrelated.numbered, hhashes.numbered]
  · rw [← hhashes.numbered, ← hcorrelated.numbered]
    refine hcompared.first key first ?_
    rw [← hrest.numbered]
    exact hf
  · obtain ⟨hlast, hstart⟩ := hreported .replayDetected (by simp [outOfBand, identityKinds]) (by simp) i
    show last.Reported _ _ ↔ _
    rw [hlast, hcompared.reports, hcorrelated.reports, hstart, hindex]
    simp only [reduceCtorEq, false_and, or_false, true_and, Walk.Numbered]
    rw [hcorrelated.numbered, hhashes.numbered]

-- A record that cannot be canonicalized is passed over.
theorem checkUnhashable_passes {message : JsString}
    (h : checkUnhashable P inputs record message walk = .ok after) :
    after.attempted = walk.attempted ∧ after.numbered = walk.numbered ∧
      ∀ kind ∉ Tier1Code.schemaInvalid :: outOfBand, ∀ i, after.Reported kind i ↔ walk.Reported kind i := by
  obtain ⟨principal, hp, h⟩ := bind_ok h
  obtain ⟨last, hl, h⟩ := bind_ok h
  obtain rfl := pure_ok h
  have hadds := (checkPrincipal_adds hp).trans (checkCountersignature_adds hl)
  refine ⟨hadds.attempted, hadds.numbered, fun kind hkind i => ?_⟩
  rw [List.mem_cons, not_or] at hkind
  show last.Reported _ _ ↔ _
  rw [hadds.finds.reported fun hin => hkind.2 (by simp [outOfBand, hin]), Walk.reported_report]
  simp [hkind.1]

-- The findings of the loop.
def walkKinds : List Tier1Code := .seqGap :: .recordHashMismatch :: .schemaInvalid :: besideChain

def unsignedKinds : List Tier1Code := .seqGap :: .recordHashMismatch :: .schemaInvalid :: besideSignature

-- Every finding of a turn is about its record.
theorem verifyRecord_findsWith {kinds : List Tier1Code} (hsignature : SignatureFinds inputs record kinds)
    (h : verifyRecord P inputs walk record = .ok after) :
    after.index = walk.index + 1 ∧ ∃ new, after.issues = walk.issues ++ new ∧
      ∀ issue ∈ new, issue.kind ∈ kinds ++ unsignedKinds ∧ issue.seq = .record walk.index record.seq := by
  obtain ⟨checked, hseq, h⟩ := bind_ok h
  have hreports := checkSequence_reports hseq
  obtain ⟨first, hfirst, hf⟩ : ∃ new, checked.issues = walk.issues ++ new ∧
      ∀ issue ∈ new, issue.kind ∈ kinds ++ unsignedKinds ∧ issue.seq = .record walk.index record.seq := by
    rcases hreports with ⟨-, detail, rfl⟩ | ⟨-, rfl⟩
    · exact ⟨_, rfl, by simp [unsignedKinds]⟩
    · exact ⟨[], by simp, by simp⟩
  have hindex := hreports.fields.1
  have hrest (middle : Walk) (hnext : after.index = checked.index + 1)
      (hmiddle : Finds record (kinds ++ unsignedKinds) checked middle) (hissues : after.issues = middle.issues) :
      after.index = walk.index + 1 ∧ ∃ new, after.issues = walk.issues ++ new ∧
        ∀ issue ∈ new, issue.kind ∈ kinds ++ unsignedKinds ∧ issue.seq = .record walk.index record.seq := by
    obtain ⟨second, hsecond, hs⟩ := hmiddle.issues
    refine ⟨by rw [hnext, hindex], first ++ second, by rw [hissues, hsecond, hfirst, List.append_assoc], fun issue hi => ?_⟩
    rcases List.mem_append.mp hi with hm | hm
    · exact hf issue hm
    · rw [← hindex]
      exact hs issue hm
  cases hhash : computeRecordHash P record.event record.seq record.host_ts checked.prevRecomputed with
  | ok recomputed =>
      simp only [hhash] at h
      obtain ⟨hnext, -, last, hfinds, hissues⟩ := checkHashable_finds hsignature h
      refine hrest last hnext (((checkHashes_finds record checked recomputed).finds.mono (by simp [unsignedKinds])).trans
        (hfinds.mono fun kind hk => ?_)) hissues
      exact (List.mem_append.mp hk).elim (fun hm => by simp [hm]) fun hm => by simp [unsignedKinds, hm]
  | error e =>
      cases e with
      | canonicalizationError message =>
          simp only [hhash] at h
          obtain ⟨hnext, -, last, hfinds, hissues⟩ := checkUnhashable_finds h
          exact hrest last hnext ((Adds.report checked (.text message) (by simp [unsignedKinds])).finds.trans
            (hfinds.mono fun kind hk => by simp [unsignedKinds, besideSignature, hk])) hissues
      | _ => simp [hhash] at h

theorem verifyRecord_finds (h : verifyRecord P inputs walk record = .ok after) :
    ∃ new, after.issues = walk.issues ++ new ∧
      ∀ issue ∈ new, issue.kind ∈ walkKinds ∧ issue.seq = .record walk.index record.seq := by
  obtain ⟨-, new, hnew, hn⟩ := verifyRecord_findsWith signatureFinds_any h
  refine ⟨new, hnew, fun issue hi => ⟨?_, (hn issue hi).2⟩⟩
  have := (hn issue hi).1
  simp only [unsignedKinds, List.cons_append, List.nil_append, List.mem_cons] at this
  simp only [walkKinds, besideChain, List.mem_cons]
  tauto

theorem walk_kinds {records : List StoredRecord} (h : records.foldlM (verifyRecord P inputs) Walk.start = .ok walk) :
    ∀ issue ∈ walk.issues, issue.kind ∈ walkKinds := by
  refine foldlM_ok_invariant (fun _ walk => ∀ issue ∈ walk.issues, issue.kind ∈ walkKinds) records ?_
    (by simp [Walk.start]) h
  intro done record rest before after _ hkinds hstep issue hi
  obtain ⟨new, hnew, hn⟩ := verifyRecord_finds hstep
  rw [hnew] at hi
  exact (List.mem_append.mp hi).elim (hkinds issue) fun hm => (hn issue hm).1

-- One turn over a record whose hash can be recomputed.
theorem verifyRecord_learned (hadapter : inputs.adapter = DEFAULT_ADAPTER)
    (hevent : record.event = some (.obj members)) {recomputed : JsString}
    (hhash : computeRecordHash P record.event record.seq record.host_ts walk.prevRecomputed = .ok recomputed)
    (h : verifyRecord P inputs walk record = .ok after) :
    Learned P (.obj members) record walk after ∧ after.index = walk.index + 1 ∧
      after.prevRecomputed = some (.str recomputed) := by
  obtain ⟨checked, hseq, h⟩ := bind_ok h
  have hreports := checkSequence_reports hseq
  obtain ⟨hindex, hprev, hattempted, hnumbered⟩ := hreports.fields
  rw [hprev, hhash] at h
  obtain ⟨hnext, htail, -⟩ := checkHashable_finds signatureFinds_any h
  have hlearned := checkHashable_learned hadapter hevent h
  refine ⟨?_, by rw [hnext, hindex], htail⟩
  obtain ⟨operation, hoperation, hattempts, horphans⟩ := hlearned.operation
  refine ⟨⟨operation, hoperation, by rw [← hattempted]; exact hattempts, fun i => ?_⟩, ?_, ?_, fun i => ?_⟩
  · rw [horphans, hreports.reported, hindex, hattempted]
    simp
  · unfold Walk.Numbered
    rw [← hnumbered]
    exact hlearned.numbered
  · rw [← hnumbered]
    exact hlearned.first
  · rw [hlearned.replays, hreports.reported, hindex]
    unfold Walk.Numbered
    rw [hnumbered]
    simp

-- One turn over a record that cannot be canonicalized.
theorem verifyRecord_passes {message : JsString}
    (hhash : computeRecordHash P record.event record.seq record.host_ts walk.prevRecomputed =
      .error (.canonicalizationError message))
    (h : verifyRecord P inputs walk record = .ok after) :
    after.attempted = walk.attempted ∧ after.numbered = walk.numbered ∧ after.index = walk.index + 1 ∧
      after.prevRecomputed = record.record_hash ∧
      ∀ kind ∉ Tier1Code.seqGap :: .schemaInvalid :: outOfBand, ∀ i,
        after.Reported kind i ↔ walk.Reported kind i := by
  obtain ⟨checked, hseq, h⟩ := bind_ok h
  have hreports := checkSequence_reports hseq
  obtain ⟨hindex, hprev, hattempted, hnumbered⟩ := hreports.fields
  rw [hprev, hhash] at h
  obtain ⟨hnext, htail, -⟩ := checkUnhashable_finds h
  obtain ⟨ha, hn, hreported⟩ := checkUnhashable_passes h
  refine ⟨by rw [ha, hattempted], by rw [hn, hnumbered], by rw [hnext, hindex], htail, fun kind hkind i => ?_⟩
  rw [List.mem_cons, not_or] at hkind
  rw [hreported kind hkind.2, hreports.reported]
  simp [hkind.1]

end

end AuditableMcp
