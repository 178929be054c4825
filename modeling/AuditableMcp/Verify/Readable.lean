import AuditableMcp.Verify.Correlation
import AuditableMcp.Verify.Tampering

-- Which chains the verifier gives a report for.
namespace AuditableMcp

-- `String(value)` does not throw.
def HasText (P : Primitives) (value : Option Json) : Prop := ∃ text, stringOfOption P value = .ok text

-- The members correlation turns into text.
def CorrelationTexts (P : Primitives) (event : Json) : Prop :=
  ∀ id, event.get Fields.ID = some id → id ≠ .null →
    (if isSessionScoped event then HasText P (event.get Fields.SESSION_ID) else HasText P (event.get Fields.CALL_ID)) ∧
      HasText P (some id)

-- The members the accounting turns into text, in the events it reads.
def AccountingTexts (P : Primitives) (event : Json) : Prop :=
  isSessionScoped event = true →
    HasText P (event.get Fields.SESSION_ID) ∧ HasText P (event.get Fields.ID) ∧
      (Json.isText (event.get Fields.OUTCOME) Outcome.ABORTED = true → HasText P (event.get Fields.REASON))

structure Readable (P : Primitives) (event : Json) : Prop where
  correlation : CorrelationTexts P event
  accounting : AccountingTexts P event

theorem hasText_num (P : Primitives) (n : JsNum) : HasText P (some (.num n)) :=
  ⟨P.numberToString n, by simp [stringOfOption, stringOf]⟩

theorem hasText_str (P : Primitives) (s : JsString) : HasText P (some (.str s)) :=
  ⟨s, by simp [stringOfOption, stringOf]⟩

theorem bind_isOk {ε α β : Type} {x : Except ε α} {f : α → Except ε β} :
    (∃ b, (x >>= f) = .ok b) ↔ ∃ a, x = .ok a ∧ ∃ b, f a = .ok b := by
  constructor
  · rintro ⟨b, h⟩
    obtain ⟨a, ha, hb⟩ := bind_ok h
    exact ⟨a, ha, b, hb⟩
  · rintro ⟨a, rfl, b, hb⟩
    exact ⟨b, hb⟩

theorem operationKey_isOk {P : Primitives} {sessionId id : Option Json} :
    (∃ key, operationKey P sessionId id = .ok key) ↔ HasText P sessionId ∧ HasText P id := by
  unfold operationKey HasText
  simp only [bind_isOk]
  constructor
  · rintro ⟨s, hs, i, hi, -⟩
    exact ⟨⟨s, hs⟩, i, hi⟩
  · rintro ⟨⟨s, hs⟩, i, hi⟩
    exact ⟨s, hs, i, hi, _, rfl⟩

theorem eventOperation_isOk {P : Primitives} {event : Json} :
    (∃ operation, eventOperation P event = .ok operation) ↔ CorrelationTexts P event := by
  unfold eventOperation CorrelationTexts
  cases event.get Fields.ID with
  | none => exact ⟨fun _ id hid => absurd hid (by simp), fun _ => ⟨none, rfl⟩⟩
  | some id =>
      by_cases hnull : id = .null
      · subst hnull
        exact ⟨fun _ id hid hne => absurd (Option.some.inj hid).symm hne, fun _ => ⟨none, rfl⟩⟩
      · simp only [Option.some.injEq, forall_eq', ne_eq, hnull, not_false_eq_true, true_imp_iff]
        split
        · rw [bind_isOk, ← operationKey_isOk]
          exact ⟨fun ⟨key, hkey, _⟩ => ⟨key, hkey⟩, fun ⟨key, hkey⟩ => ⟨key, hkey, _, rfl⟩⟩
        · simp only [bind_isOk]
          constructor
          · rintro ⟨call, hcall, text, htext, -⟩
            exact ⟨⟨call, hcall⟩, text, htext⟩
          · rintro ⟨⟨call, hcall⟩, text, htext⟩
            exact ⟨call, hcall, text, htext, _, rfl⟩

section

variable {P : Primitives} {record : StoredRecord} {walk after : Walk} {members : List (JsString × Json)}
  {anchored : Option JsString}

theorem adapter_anchored (anchored : Option JsString) : (VerifyInputs.anchored anchored).adapter = DEFAULT_ADAPTER := rfl

-- With nothing supplied out of band, none of these phases can throw.
theorem checkPrincipal_anchored (walk : Walk) : checkPrincipal P (.anchored anchored) record walk = .ok walk := rfl

theorem checkSignature_anchored (anchored : Option JsString) (record : StoredRecord)
    (walk : Walk) (inner : Option Json) :
    ∃ after, checkSignature (.anchored anchored) record walk inner = .ok after := by
  unfold checkSignature
  split <;> exact ⟨_, rfl⟩

theorem checkCountersignature_anchored (anchored : Option JsString) (record : StoredRecord)
    (walk : Walk) (hashable : Bool) :
    ∃ after, checkCountersignature P (.anchored anchored) record walk hashable = .ok after := by
  have htriple : ∃ after, checkTriple P (.anchored anchored) record walk hashable = .ok after := by
    unfold checkTriple
    split
    · exact ⟨_, rfl⟩
    · split
      · exact ⟨_, rfl⟩
      · split <;> exact ⟨_, rfl⟩
  obtain ⟨after, h⟩ := htriple
  unfold checkCountersignature
  rw [h]
  exact ⟨after, rfl⟩

-- Every record numbered so far stands at a position that has a text.
def NumbersText (P : Primitives) (walk : Walk) : Prop :=
  ∀ key first, walk.numbered.get key = some (some first) → HasText P (some first)

theorem checkHashable_isOk (anchored : Option JsString) (recomputed : JsString)
    (hevent : record.event = some (.obj members))
    (htexts : NumbersText P walk) :
    (∃ after, checkHashable P (.anchored anchored) record recomputed walk = .ok after) ↔
      CorrelationTexts P (.obj members) := by
  have hadapter : (VerifyInputs.anchored anchored).adapter = DEFAULT_ADAPTER := rfl
  have hinner : (VerifyInputs.anchored anchored).adapter.eventOf record.event = .ok (some (.obj members)) := by
    rw [hadapter, hevent]
    rfl
  have hnumbered : (checkHashes record walk recomputed).numbered = walk.numbered :=
    (checkHashes_finds record walk recomputed).numbered
  rw [← eventOperation_isOk, ← correlate_isOk hadapter hevent (checkHashes record walk recomputed)]
  unfold checkHashable
  simp only [hinner]
  constructor
  · rintro ⟨after, h⟩
    obtain ⟨inner, hi, h⟩ := bind_ok h
    obtain rfl := Except.ok.inj hi
    obtain ⟨correlated, hc, -⟩ := bind_ok h
    exact ⟨correlated, hc⟩
  · rintro ⟨correlated, hc⟩
    obtain ⟨operation, -, hcorrelated⟩ := correlate_correlated hadapter hevent hc
    have htexts' : ∀ key first, correlated.numbered.get key = some (some first) →
        ∃ text, stringOf P first = .ok text := by
      intro key first hf
      rw [hcorrelated.numbered, hnumbered] at hf
      exact htexts key first hf
    obtain ⟨replayed, hr⟩ := checkReplayed_isOk record htexts' (some (.obj members))
    obtain ⟨verified, hv⟩ := checkSignature_anchored anchored record replayed
      (some (.obj members))
    obtain ⟨last, hl⟩ := checkCountersignature_anchored (P := P) anchored record verified true
    exact bind_isOk.mpr ⟨_, rfl, bind_isOk.mpr ⟨_, hc, bind_isOk.mpr ⟨_, hr, bind_isOk.mpr ⟨_, rfl,
      bind_isOk.mpr ⟨_, hv, bind_isOk.mpr ⟨_, hl, _, rfl⟩⟩⟩⟩⟩⟩

-- On a record that continues the chain the walk throws exactly where correlation does.
theorem verifyRecord_isOk {recomputed : JsString} (hevent : record.event = some (.obj members))
    (htexts : NumbersText P walk) (hlinks : RecordLinks P walk record recomputed) :
    (∃ after, verifyRecord P (.anchored anchored) walk record = .ok after) ↔ CorrelationTexts P (.obj members) := by
  have hseq : checkSequence P record walk = .ok walk := by
    unfold checkSequence
    rw [if_pos hlinks.seq]
  rw [← checkHashable_isOk anchored recomputed hevent htexts]
  unfold verifyRecord
  simp only [hseq, bind, Except.bind, hlinks.hash]

end

theorem accountEvent_isOk {P : Primitives} {accounting : Accounting} {event : Json} :
    (∃ next, accountEvent P accounting event = .ok next) ↔
      HasText P (event.get Fields.SESSION_ID) ∧ HasText P (event.get Fields.ID) ∧
        (Json.isText (event.get Fields.OUTCOME) Outcome.ABORTED = true → HasText P (event.get Fields.REASON)) := by
  have hrefusal (operation : OperationKey) :
      (∃ refusal, isUncorrelatedRefusal P accounting.sealedAttempts operation event = .ok refusal) ↔
        (Json.isText (event.get Fields.OUTCOME) Outcome.ABORTED = true → HasText P (event.get Fields.REASON)) := by
    unfold isUncorrelatedRefusal
    split
    · rename_i haborted
      rw [bind_isOk]
      exact ⟨fun h _ => h.imp fun _ ht => ht.1, fun h => (h haborted).imp fun text ht => ⟨ht, _, rfl⟩⟩
    · rename_i hother
      exact ⟨fun _ haborted => absurd haborted hother, fun _ => ⟨false, rfl⟩⟩
  unfold accountEvent
  rw [bind_isOk, ← and_assoc, ← operationKey_isOk]
  constructor
  · rintro ⟨operation, hoperation, h⟩
    obtain ⟨refusal, hr, -⟩ := bind_isOk.mp h
    exact ⟨⟨operation, hoperation⟩, (hrefusal operation).mp ⟨refusal, hr⟩⟩
  · rintro ⟨⟨operation, hoperation⟩, h⟩
    obtain ⟨refusal, hr⟩ := (hrefusal operation).mpr h
    refine ⟨operation, hoperation, bind_isOk.mpr ⟨refusal, hr, ?_⟩⟩
    cases accountedNumber event with
    | none => exact ⟨_, rfl⟩
    | some number => exact ⟨_, rfl⟩

theorem mem_listedEvents {events : List (Option Json)} {event : Json} :
    event ∈ listedEvents events ↔ some event ∈ events ∧ event.isObject = true ∧ isSessionScoped event = true := by
  unfold listedEvents innerObject
  simp only [List.mem_filterMap, Option.filter_eq_some_iff]
  constructor
  · rintro ⟨inner, hi, ⟨rfl, hobject⟩, hscoped⟩
    exact ⟨hi, hobject, hscoped⟩
  · rintro ⟨hi, hobject, hscoped⟩
    exact ⟨some event, hi, ⟨rfl, hobject⟩, hscoped⟩

theorem unaccountedSignerSeq_isOk {P : Primitives} {events : List (Option Json)} :
    (∃ gaps, unaccountedSignerSeq P events = .ok gaps) ↔
      ∀ event, some event ∈ events → event.isObject = true → AccountingTexts P event := by
  unfold unaccountedSignerSeq signerGroups
  rw [bind_isOk]
  have hfold := foldlM_isOk_iff (f := accountEvent P) (fun _ _ => True)
    (fun event => HasText P (event.get Fields.SESSION_ID) ∧ HasText P (event.get Fields.ID) ∧
      (Json.isText (event.get Fields.OUTCOME) Outcome.ABORTED = true → HasText P (event.get Fields.REASON)))
    (listedEvents events) (fun _ _ _ _ _ _ => accountEvent_isOk) (fun _ _ _ _ _ _ _ _ => trivial)
    (s := ⟨[], .empty⟩) trivial
  constructor
  · rintro ⟨accounting, h, -⟩ event hi hobject hscoped
    exact hfold.mp ⟨accounting, h⟩ event (mem_listedEvents.mpr ⟨hi, hobject, hscoped⟩)
  · intro hall
    obtain ⟨accounting, h⟩ := hfold.mpr fun event hi => by
      obtain ⟨hi, hobject, hscoped⟩ := mem_listedEvents.mp hi
      exact hall event hi hobject hscoped
    exact ⟨accounting, h, _, rfl⟩

theorem isLedgerChain_before {P : Primitives} {done : List StoredRecord} (rest : List StoredRecord)
    (hevents : HasEvents (done ++ rest))
    (h : IsLedgerChain P (done ++ rest)) : IsLedgerChain P done := by
  induction rest using List.reverseRecOn with
  | nil => simpa using h
  | append_singleton rest record ih =>
      rw [← List.append_assoc] at h hevents
      have hbefore : HasEvents (done ++ rest) := fun r hr => hevents r (List.mem_append_left _ hr)
      obtain ⟨members, hm⟩ := hevents record (by simp)
      obtain ⟨ledger, hledger, hlinks, -⟩ := (isLedgerChain_append_singleton hbefore hm).mp h
      exact ih hbefore ⟨ledger, hledger, hlinks⟩

section

variable {P : Primitives} {done : List StoredRecord} {record : StoredRecord} {walk after : Walk}
  {anchored : Option JsString} {members : List (JsString × Json)}

-- The record a ledger's chain goes on with links to the walk over what came before.
theorem recordLinks_of_chain (hevents : HasEvents done) (hevent : record.event = some (.obj members))
    (hchain : IsLedgerChain P (done ++ [record])) (h : Walked P done walk) :
    ∃ recomputed, RecordLinks P walk record recomputed := by
  obtain ⟨ledger, hledger, hlinks, hseq, hprev, recordHash, hrecord, hhash⟩ :=
    (isLedgerChain_append_singleton hevents hevent).mp hchain
  have htail := h.tail ledger hledger hlinks
  refine ⟨recordHash, ?_, ?_, ?_, ?_⟩
  · rw [h.index]
    exact strictEq_num_iff.mpr hseq
  · rw [htail]
    exact hhash
  · rw [htail]
    exact strictEq_str_iff.mpr hprev
  · exact strictEq_str_iff.mpr hrecord

theorem numbersText_kept {recomputed : JsString} (hevent : record.event = some (.obj members))
    (hlinks : RecordLinks P walk record recomputed) (htexts : NumbersText P walk)
    (h : verifyRecord P (.anchored anchored) walk record = .ok after) : NumbersText P after := by
  have hseq : record.seq = some (.num (.ofNat walk.index)) := strictEq_num_iff.mp hlinks.seq
  have hlearned := (verifyRecord_learned (adapter_anchored anchored) hevent hlinks.hash h).1
  intro key first hf
  rcases hlearned.first key first hf with hold | hnew
  · exact htexts key first hold
  · rw [hseq] at hnew
    obtain rfl := Option.some.inj hnew
    exact hasText_num P _

end

-- Over a ledger's chain the walk ends exactly where correlation never throws.
theorem walk_isOk {P : Primitives} {records : List StoredRecord} (anchored : Option JsString)
    (hevents : HasEvents records) (hchain : IsLedgerChain P records) :
    (∃ walk, records.foldlM (verifyRecord P (.anchored anchored)) Walk.start = .ok walk) ↔
      ∀ record ∈ records, ∀ event, record.event = some event → CorrelationTexts P event := by
  have hone (done : List StoredRecord) (record : StoredRecord) (rest : List StoredRecord) (walk : Walk)
      (hsplit : records = done ++ record :: rest) (h : Walked P done walk) :
      ∃ members, record.event = some (.obj members) ∧ HasEvents done ∧
        ∃ recomputed, RecordLinks P walk record recomputed := by
    obtain ⟨members, hm⟩ := hevents record (by simp [hsplit])
    have hdone : HasEvents done := fun r hr => hevents r (by simp [hsplit, hr])
    have hnext : IsLedgerChain P (done ++ [record]) := by
      refine isLedgerChain_before rest ?_ ?_
      · rw [List.append_assoc, List.singleton_append, ← hsplit]
        exact hevents
      · rw [List.append_assoc, List.singleton_append, ← hsplit]
        exact hchain
    exact ⟨members, hm, hdone, recordLinks_of_chain hdone hm hnext h⟩
  refine foldlM_isOk_iff (fun done walk => Walked P done walk ∧ NumbersText P walk)
    (fun record => ∀ event, record.event = some event → CorrelationTexts P event) records ?_ ?_ ?_
  · rintro done record rest walk hsplit ⟨hwalked, htexts⟩
    obtain ⟨members, hm, -, recomputed, hlinks⟩ := hone done record rest walk hsplit hwalked
    rw [verifyRecord_isOk hm htexts hlinks, hm]
    simp
  · rintro done record rest walk after hsplit ⟨hwalked, htexts⟩ hstep
    obtain ⟨members, hm, hdone, recomputed, hlinks⟩ := hone done record rest walk hsplit hwalked
    exact ⟨verifyRecord_walked hdone hm hwalked hstep, numbersText_kept hm hlinks htexts hstep⟩
  · exact ⟨walked_start P, fun key first hf => by simp [Walk.start] at hf⟩

theorem eventsOf_default (records : List StoredRecord) (anchored : Option JsString) :
    (records.mapM fun record => (VerifyInputs.anchored anchored).adapter.eventOf record.event) =
      (.ok (records.map StoredRecord.event) : Except JsError (List (Option Json))) :=
  List.mapM_pure

theorem digestIssues_isOk {P : Primitives} (anchored : Option JsString) (text : JsString) :
    ∃ issues, digestIssues P anchored (some (.str text)) = .ok issues := by
  unfold digestIssues
  split
  · exact ⟨_, rfl⟩
  · split
    · exact ⟨_, rfl⟩
    · simp [stringOfOption, stringOf, bind, Except.bind, pure, Except.pure]

theorem verifyChain_of_phases {P : Primitives} {records : List StoredRecord} {anchored : Option JsString} {walk : Walk}
    {gaps : List UnaccountedSignerSeq} {digest : List VerifyIssue}
    (hwalk : records.foldlM (verifyRecord P (.anchored anchored)) Walk.start = .ok walk)
    (hgaps : unaccountedSignerSeq P (records.map StoredRecord.event) = .ok gaps)
    (hdigest : digestIssues P anchored walk.prevRecomputed = .ok digest) :
    ∃ report, verifyChain P records (.anchored anchored) = .ok report := by
  unfold verifyChain
  have habsent : ¬typeOf none = JsString.ofString "object" := by decide
  rw [if_neg (show ¬typeOf (VerifyInputs.anchored anchored).expectedPrincipal = JsString.ofString "object" from habsent)]
  exact bind_isOk.mpr ⟨walk, hwalk, bind_isOk.mpr ⟨_, eventsOf_default _ _, bind_isOk.mpr ⟨gaps, hgaps,
    bind_isOk.mpr ⟨digest, hdigest, _, rfl⟩⟩⟩⟩

-- A ledger's chain gets a report exactly where every event is readable.
theorem verifyChain_isOk {P : Primitives} {records : List StoredRecord} (anchored : Option JsString)
    (hevents : HasEvents records) (hchain : IsLedgerChain P records) :
    (∃ report, verifyChain P records (.anchored anchored) = .ok report) ↔
      ∀ record ∈ records, ∀ event, record.event = some event → Readable P event := by
  have haccount : (∃ gaps, unaccountedSignerSeq P (records.map StoredRecord.event) = .ok gaps) ↔
      ∀ record ∈ records, ∀ event, record.event = some event → AccountingTexts P event := by
    rw [unaccountedSignerSeq_isOk]
    constructor
    · intro h record hr event he
      obtain ⟨members, hm⟩ := hevents record hr
      obtain rfl := Option.some.inj (he.symm.trans hm)
      exact h _ (List.mem_map.mpr ⟨record, hr, he⟩) rfl
    · intro h event he _
      obtain ⟨record, hr, he⟩ := List.mem_map.mp he
      exact h record hr event he
  have hwalk := walk_isOk anchored hevents hchain
  constructor
  · rintro ⟨report, h⟩ record hr event he
    obtain ⟨walk, events, gaps, digest, hv⟩ := verifyChain_verified h
    have hread := hv.read
    rw [eventsOf_default] at hread
    obtain rfl := Except.ok.inj hread
    exact ⟨hwalk.mp ⟨walk, hv.walked⟩ record hr event he, haccount.mp ⟨gaps, hv.accounted⟩ record hr event he⟩
  · intro hall
    obtain ⟨walk, hw⟩ := hwalk.mpr fun record hr event he => (hall record hr event he).correlation
    obtain ⟨gaps, hg⟩ := haccount.mpr fun record hr event he => (hall record hr event he).accounting
    obtain ⟨ledger, hledger, hlinks⟩ := hchain
    have htail := (walked_all hevents hw).tail ledger hledger hlinks
    obtain ⟨digest, hd⟩ := digestIssues_isOk (P := P) anchored ledger.tailHash
    rw [← htail] at hd
    exact verifyChain_of_phases hw hg hd

end AuditableMcp
