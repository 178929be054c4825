import AuditableMcp.Reference.Events
import AuditableMcp.Verify.Lookups

-- The per-session findings: what they are to cover, and what they do cover.
namespace AuditableMcp

-- An event of v0.3 or later.
def fromV03 (event : Json) : Bool :=
  match event.get Fields.SPEC_VERSION with
  | some (.str version) => version ∈ SESSION_VERSIONS
  | _ => false

-- Two events of one operation: (session_id, id) from v0.3 on, (call_id, id) before.
def SameOperation (first second : Json) : Prop :=
  fromV03 first = fromV03 second ∧ first.get Fields.ID = second.get Fields.ID ∧
    if fromV03 first then first.get Fields.SESSION_ID = second.get Fields.SESSION_ID
    else first.get Fields.CALL_ID = second.get Fields.CALL_ID

def Concluding (event : Json) : Prop :=
  Json.isText (event.get Fields.OUTCOME) Outcome.SUCCESS = true ∨
    Json.isText (event.get Fields.OUTCOME) Outcome.FAILED = true

-- An attempt of the event's own operation stands among the records.
def OwnAttempt (before : List StoredRecord) (event : Json) : Prop :=
  ∃ earlier ∈ before, ∃ attempt, earlier.event = some attempt ∧ isAttempted attempt = true ∧
    SameOperation attempt event

def Orphaned (before : List StoredRecord) (record : StoredRecord) : Prop :=
  ∃ event, record.event = some event ∧ Concluding event ∧ ¬OwnAttempt before event

-- Two records of v0.3 or later with one (key_id, session_id, signer_seq).
def SharesNumber (first second : StoredRecord) : Prop :=
  ∃ a b number, first.event = some a ∧ second.event = some b ∧ fromV03 a = true ∧ fromV03 b = true ∧
    sessionNumber a = some number ∧ sessionNumber b = some number

def Replayed (before : List StoredRecord) (record : StoredRecord) : Prop :=
  ∃ earlier ∈ before, SharesNumber earlier record

-- The number an event adds to one key's sequence in one session.
def numberIn (keyId sessionId : JsString) (event : Json) : Option Nat :=
  (accountedNumber event).bind fun number =>
    if number.1 = keyId ∧ number.2.1 = sessionId then some number.2.2 else none

def isSigned (event : Json) : Bool := (event.get Fields.SIGNATURE).isSome

-- The numbers of the signed events of v0.3 or later, in chain order.
def signedNumbers (events : List Json) (keyId sessionId : JsString) : List Nat :=
  (events.filter fun event => fromV03 event && isSigned event).filterMap (numberIn keyId sessionId)

-- The gaps reported are those of a grouping whose values are the signed numbers of v0.3
-- or later, and only those.
def AccountsExactly (P : Primitives) (records : List StoredRecord) (report : VerifyReport) : Prop :=
  ∃ accounting, signerGroups P (records.map StoredRecord.event) = .ok accounting ∧
    (report.issues.filter fun issue => issue.kind = .signerSeqGap) =
      (accounting.groups.entries.flatMap fun entry => entry.2.unaccounted).map (gapIssue P) ∧
    ∀ keyId sessionId, ((accounting.groups.get (keyId, sessionId)).map SignerGroup.values).getD [] =
      signedNumbers (records.filterMap StoredRecord.event) keyId sessionId

structure PerSessionFindings (P : Primitives) (records : List StoredRecord) (report : VerifyReport) : Prop where
  orphans : ∀ i, (∃ issue ∈ report.issues, issue.concerns .orphanedOutcome i) ↔ Occurs Orphaned records i
  replays : ∀ i, (∃ issue ∈ report.issues, issue.concerns .replayDetected i) ↔ Occurs Replayed records i
  accounts : AccountsExactly P records report

-- What the walk pairs an event by beside its id. A v0.3 event has no `call_id`, so its
-- place is taken by the text of its absence.
def pairedBy (event : Json) : Option Json :=
  if isSessionScoped event then event.get Fields.SESSION_ID
  else (event.get Fields.CALL_ID).or (some (.str "undefined"))

def PairedAs (first second : Json) : Prop :=
  isSessionScoped first = isSessionScoped second ∧ first.get Fields.ID = second.get Fields.ID ∧
    pairedBy first = pairedBy second

-- An attempt the walk pairs with the event stands among the records that can be canonicalized.
def PairedAttempt (before : List StoredRecord) (event : Json) : Prop :=
  ∃ i, Occurs (fun before earlier => Hashable before earlier ∧
    ∃ attempt, earlier.event = some attempt ∧ isAttempted attempt = true ∧ PairedAs attempt event) before i

-- The successes and failures the walk gets wrong: one it passes over, one whose own
-- attempt it does not pair it with, and one it pairs with another operation's.
inductive Misled (before : List StoredRecord) (record : StoredRecord) : Prop where
  | skipped (event : Json) (hevent : record.event = some event) (hkind : Concluding event)
      (hread : ¬Hashable before record) (hown : ¬OwnAttempt before event)
  | missed (event : Json) (hevent : record.event = some event) (hkind : Concluding event)
      (hread : Hashable before record) (hown : OwnAttempt before event) (hpaired : ¬PairedAttempt before event)
  | crossed (event : Json) (hevent : record.event = some event) (hkind : Concluding event)
      (hread : Hashable before record) (hown : ¬OwnAttempt before event) (hpaired : PairedAttempt before event)

-- A number sealed twice that the walk cannot see twice.
def Unread (before : List StoredRecord) (record : StoredRecord) : Prop :=
  Replayed before record ∧ ¬(Hashable before record ∧
    ∃ i, Occurs (fun before earlier => Hashable before earlier ∧ SharesNumber earlier record) before i)

-- A v0.3 event that carries a signature.
def SignedV03 (event : Json) : Prop := fromV03 event = true ∧ isSessionScoped event = false ∧ isSigned event = true

structure Unaffected (records : List StoredRecord) : Prop where
  unsigned : ∀ record ∈ records, ∀ event, record.event = some event → ¬SignedV03 event
  paired : Each (fun before record => ¬Misled before record) records
  read : Each (fun before record => ¬Unread before record) records

section Events

variable {P : Primitives} {event first second : Json} {version firstVersion secondVersion : JsString}

theorem fromV03_iff (h : SealedEvent event version) : fromV03 event = true ↔ version ∈ SESSION_VERSIONS := by
  simp [fromV03, h.stated]

theorem fromV03_of_scoped (h : SealedEvent event version) (hscoped : isSessionScoped event = true) :
    fromV03 event = true := by
  rw [fromV03_iff h, (isSessionScoped_iff h).mp hscoped]
  decide

theorem concluding_iff (h : SealedEvent event version) : Concluding event ↔
    isAttempted event = false ∧ Json.isText (event.get Fields.OUTCOME) Outcome.ABORTED = false := by
  obtain ⟨outcome, ho, hall⟩ := h.outcome
  simp only [Concluding, isAttempted, ho]
  simp only [Outcome.all, List.mem_cons, List.not_mem_nil, or_false] at hall
  rcases hall with rfl | rfl | rfl | rfl <;> decide

-- The operation the walk correlates a valid event under.
theorem SealedEvent.operation (h : SealedEvent event version) : ∃ owner id, event.get Fields.ID = some (.str id) ∧
    pairedBy event = some (.str owner) ∧ eventOperation P event =
      .ok (some (if isSessionScoped event then .session "string" owner "string" id else .call owner id)) := by
  obtain ⟨id, hid⟩ := h.id
  unfold eventOperation pairedBy
  simp only [hid]
  cases hscoped : isSessionScoped event with
  | true =>
      obtain ⟨session, hs⟩ := h.session (by rw [(isSessionScoped_iff h).mp hscoped]; decide)
      refine ⟨session, id, rfl, by simp [hs], ?_⟩
      simp [hs, operationKey, stringOfOption, stringOf, bind, Except.bind, pure, Except.pure, typeOf]
  | false =>
      by_cases hv : version ∈ SESSION_VERSIONS
      · refine ⟨"undefined", id, rfl, by simp [h.noCall hv], ?_⟩
        simp [h.noCall hv, stringOfOption, stringOf, bind, Except.bind, pure, Except.pure]
      · obtain ⟨call, hc⟩ := h.call hv
        refine ⟨call, id, rfl, by simp [hc], ?_⟩
        simp [hc, stringOfOption, stringOf, bind, Except.bind, pure, Except.pure]

theorem paired_iff (hf : SealedEvent first firstVersion) (hs : SealedEvent second secondVersion) {key : OperationKey}
    (hkey : eventOperation P second = .ok (some key)) :
    eventOperation P first = .ok (some key) ↔ PairedAs first second := by
  obtain ⟨owner, id, hid, howner, hoperation⟩ := hf.operation (P := P)
  obtain ⟨owner', id', hid', howner', hoperation'⟩ := hs.operation (P := P)
  rw [hkey] at hoperation'
  obtain rfl := Option.some.inj (Except.ok.inj hoperation')
  rw [hoperation, PairedAs, hid, hid', howner, howner']
  cases isSessionScoped first <;> cases isSessionScoped second <;> simp [and_comm]

-- A numbered event of v0.3 or later is signed.
theorem signed_of_number (h : SealedEvent event version) (hv : version ∈ SESSION_VERSIONS)
    {keyId sessionId : JsString} {n : JsNum} (hnumber : sessionNumber event = some (keyId, sessionId, n)) :
    isSigned event = true := by
  have hlevel := h.level2 hv
  unfold sessionNumber at hnumber
  split at hnumber
  · rename_i key session number hk hsession hn
    unfold isSigned
    cases hsig : event.get Fields.SIGNATURE with
    | some value => rfl
    | none => simp [level2Together, hk, hn, hsig] at hlevel
  · cases hnumber

theorem scoped_of_number (h : SealedEvent event version) (hunsigned : ¬SignedV03 event) (hfrom : fromV03 event = true)
    {number : JsString × JsString × JsNum} (hnumber : sessionNumber event = some number) :
    isSessionScoped event = true := by
  by_contra hscoped
  exact hunsigned ⟨hfrom, by simpa using hscoped, signed_of_number h ((fromV03_iff h).mp hfrom) hnumber⟩

-- The number of a v0.3 event or later is a natural one, which its key tells.
theorem number_nat (h : SealedEvent event version) (hv : version ∈ SESSION_VERSIONS) {keyId sessionId : JsString}
    {n : JsNum} (hnumber : sessionNumber event = some (keyId, sessionId, n)) :
    ∃ m : Nat, n = .ofNat m ∧ (m : ℚ) ≤ MAX_SAFE_INTEGER := by
  unfold sessionNumber at hnumber
  split at hnumber
  · rename_i key session number hk hsession hn
    obtain ⟨-, -, rfl⟩ : key = keyId ∧ session = sessionId ∧ number = n := by simpa using hnumber
    rcases h.signerSeq hv with hnone | ⟨m, hm, hle⟩
    · rw [hnone] at hn
      cases hn
    · rw [hm] at hn
      exact ⟨m, by simpa using hn.symm, hle⟩
  · cases hnumber

end Events

section Positions

variable {P : Primitives} {before : List StoredRecord} {record : StoredRecord}

theorem sealedEvent_of_record (h : ValidRecord record) {event : Json} (hevent : record.event = some event) :
    ∃ version, SealedEvent event version := by
  obtain ⟨own, hown, hv⟩ := h.event
  rw [hevent] at hown
  obtain rfl := Option.some.inj hown
  exact sealedEvent_of_valid hv

theorem valid_of_occurs {R : List StoredRecord → StoredRecord → Prop} {S : List StoredRecord → StoredRecord → Prop}
    (hvalid : ∀ earlier ∈ before, ValidRecord earlier)
    (h : ∀ some earlier, ValidRecord earlier → (R some earlier ↔ S some earlier)) :
    (∃ i, Occurs R before i) ↔ ∃ i, Occurs S before i := by
  refine exists_congr fun i => exists_congr fun earlier => and_congr_right fun hi => ?_
  exact h _ earlier (hvalid earlier (List.mem_of_getElem? hi))

-- What the walk reports as orphaned, in terms of the records.
theorem foundOrphaned_iff (hvalid : ∀ earlier ∈ before, ValidRecord earlier) (hrecord : ValidRecord record) :
    FoundOrphaned P before record ↔ Hashable before record ∧
      ∃ event, record.event = some event ∧ Concluding event ∧ ¬PairedAttempt before event := by
  obtain ⟨event, hevent, hv⟩ := hrecord.event
  obtain ⟨version, hsealed⟩ := sealedEvent_of_valid hv
  obtain ⟨owner, id, -, -, hoperation⟩ := hsealed.operation (P := P)
  have hattempts : ∀ key, eventOperation P event = .ok (some key) →
      ((∃ i, Occurs (AttemptsUnder P key) before i) ↔ PairedAttempt before event) := by
    intro key hkey
    refine valid_of_occurs hvalid fun some earlier hearlier => and_congr_right fun _ => exists_congr fun attempt => ?_
    refine and_congr_right fun ha => and_congr_right fun _ => ?_
    obtain ⟨version', hsealed'⟩ := sealedEvent_of_record hearlier ha
    exact paired_iff hsealed' hsealed hkey
  unfold FoundOrphaned
  refine and_congr_right fun _ => ?_
  simp only [hevent, Option.some.injEq, exists_eq_left']
  rw [concluding_iff hsealed, ← and_assoc]
  refine and_congr_right fun _ => ?_
  constructor
  · rintro ⟨key, hkey, hnone⟩
    rwa [hattempts key hkey] at hnone
  · intro hnone
    exact ⟨_, hoperation, by rwa [hattempts _ hoperation]⟩

-- At a position the walk is right about exactly where the record is not one it is misled about.
theorem orphaned_iff_not_misled (hvalid : ∀ earlier ∈ before, ValidRecord earlier) (hrecord : ValidRecord record) :
    (FoundOrphaned P before record ↔ Orphaned before record) ↔ ¬Misled before record := by
  obtain ⟨event, hevent, hv⟩ := hrecord.event
  rw [foundOrphaned_iff hvalid hrecord]
  unfold Orphaned
  simp only [hevent, Option.some.injEq, exists_eq_left']
  constructor
  · intro h hmisled
    cases hmisled with
    | skipped other ho hkind hread hown =>
        obtain rfl : event = other := Option.some.inj (by rw [← hevent, ho])
        exact hread (h.mpr ⟨hkind, hown⟩).1
    | missed other ho hkind hread hown hpaired =>
        obtain rfl : event = other := Option.some.inj (by rw [← hevent, ho])
        exact (h.mp ⟨hread, hkind, hpaired⟩).2 hown
    | crossed other ho hkind hread hown hpaired =>
        obtain rfl : event = other := Option.some.inj (by rw [← hevent, ho])
        exact (h.mpr ⟨hkind, hown⟩).2.2 hpaired
  · intro hright
    constructor
    · rintro ⟨hread, hkind, hpaired⟩
      exact ⟨hkind, fun hown => hright (.missed event hevent hkind hread hown hpaired)⟩
    · rintro ⟨hkind, hown⟩
      have hread : Hashable before record := by
        by_contra hread
        exact hright (.skipped event hevent hkind hread hown)
      exact ⟨hread, hkind, fun hpaired => hright (.crossed event hevent hkind hread hown hpaired)⟩

theorem numberKey_eq_iff {first second : JsString × JsString × JsNum} {n m : Nat} (hf : first.2.2 = .ofNat n)
    (hs : second.2.2 = .ofNat m) :
    numberKey first.1 first.2.1 first.2.2 = numberKey second.1 second.2.1 second.2.2 ↔ first = second := by
  obtain ⟨k₁, s₁, n₁⟩ := first
  obtain ⟨k₂, s₂, n₂⟩ := second
  simp only at hf hs
  subst hf hs
  simp [numberKey, JsNum.ofNat]

-- Where no v0.3 event is signed, the walk numbers the events the claim is about.
theorem eventNumber_iff {event : Json} {version : JsString} (key : NumberKey) (h : SealedEvent event version)
    (hunsigned : ¬SignedV03 event) : eventNumber event = some key ↔
      ∃ number, fromV03 event = true ∧ sessionNumber event = some number ∧
        numberKey number.1 number.2.1 number.2.2 = key := by
  unfold eventNumber
  constructor
  · intro hkey
    split at hkey
    · rename_i hscoped
      obtain ⟨number, hn, hk⟩ := Option.map_eq_some_iff.mp hkey
      exact ⟨number, fromV03_of_scoped h hscoped, hn, hk⟩
    · cases hkey
  · rintro ⟨number, hfrom, hn, hk⟩
    rw [if_pos (scoped_of_number h hunsigned hfrom hn), hn, Option.map_some, hk]

theorem foundReplayed_iff (hvalid : ∀ earlier ∈ before, ValidRecord earlier) (hrecord : ValidRecord record)
    (hbefore : ∀ earlier ∈ before, ∀ event, earlier.event = some event → ¬SignedV03 event)
    (hunsigned : ∀ event, record.event = some event → ¬SignedV03 event) :
    FoundReplayed before record ↔ Hashable before record ∧
      ∃ i, Occurs (fun before earlier => Hashable before earlier ∧ SharesNumber earlier record) before i := by
  obtain ⟨event, hevent, hv⟩ := hrecord.event
  obtain ⟨version, hsealed⟩ := sealedEvent_of_valid hv
  have hown {key : NumberKey} := eventNumber_iff key hsealed (hunsigned event hevent)
  unfold FoundReplayed
  refine and_congr_right fun _ => ?_
  simp only [hevent, Option.some.injEq, exists_eq_left']
  constructor
  · rintro ⟨key, hkey, i, earlier, hi, hread, other, hother, hnumber⟩
    have hmem := List.mem_of_getElem? hi
    obtain ⟨version', hsealed'⟩ := sealedEvent_of_record (hvalid earlier hmem) hother
    obtain ⟨number, hfrom, hn, hk⟩ := hown.mp hkey
    obtain ⟨number', hfrom', hn', hk'⟩ := (eventNumber_iff _ hsealed' (hbefore earlier hmem other hother)).mp hnumber
    obtain ⟨n, hnat, -⟩ := number_nat hsealed ((fromV03_iff hsealed).mp hfrom) hn
    obtain ⟨m, hmat, -⟩ := number_nat hsealed' ((fromV03_iff hsealed').mp hfrom') hn'
    obtain rfl : number' = number := (numberKey_eq_iff hmat hnat).mp (by rw [hk, hk'])
    exact ⟨i, earlier, hi, hread, other, event, number', hother, hevent, hfrom', hfrom, hn', hn⟩
  · rintro ⟨i, earlier, hi, hread, other, own, number, hother, ho, hfrom', hfrom, hn', hn⟩
    obtain rfl : event = own := Option.some.inj (by rw [← hevent, ho])
    have hmem := List.mem_of_getElem? hi
    obtain ⟨version', hsealed'⟩ := sealedEvent_of_record (hvalid earlier hmem) hother
    exact ⟨_, hown.mpr ⟨number, hfrom, hn, rfl⟩, i, earlier, hi, hread, other, hother,
      (eventNumber_iff _ hsealed' (hbefore earlier hmem other hother)).mpr ⟨number, hfrom', hn', rfl⟩⟩

theorem replayed_iff_not_unread (hvalid : ∀ earlier ∈ before, ValidRecord earlier) (hrecord : ValidRecord record)
    (hbefore : ∀ earlier ∈ before, ∀ event, earlier.event = some event → ¬SignedV03 event)
    (hunsigned : ∀ event, record.event = some event → ¬SignedV03 event) :
    (FoundReplayed before record ↔ Replayed before record) ↔ ¬Unread before record := by
  rw [foundReplayed_iff hvalid hrecord hbefore hunsigned]
  unfold Unread
  constructor
  · rintro h ⟨hreplayed, hnot⟩
    exact hnot (h.mpr hreplayed)
  · intro h
    constructor
    · rintro ⟨-, i, earlier, hi, -, hshares⟩
      exact ⟨earlier, List.mem_of_getElem? hi, hshares⟩
    · intro hreplayed
      by_contra hnot
      exact h ⟨hreplayed, hnot⟩

end Positions

section Accounts

variable {P : Primitives} {records : List StoredRecord}

def Accounting.valuesOf (accounting : Accounting) (keyId sessionId : JsString) : List Nat :=
  ((accounting.groups.get (keyId, sessionId)).map SignerGroup.values).getD []

theorem accountEvent_values {accounting next : Accounting} {event : Json} (h : accountEvent P accounting event = .ok next)
    (keyId sessionId : JsString) :
    next.valuesOf keyId sessionId = accounting.valuesOf keyId sessionId ++ (numberIn keyId sessionId event).toList := by
  unfold accountEvent at h
  obtain ⟨operation, -, h⟩ := bind_ok h
  obtain ⟨refusal, -, h⟩ := bind_ok h
  unfold numberIn
  cases hnumber : accountedNumber event with
  | none =>
      rw [hnumber] at h
      obtain rfl := pure_ok h
      simp [Accounting.valuesOf]
  | some number =>
      obtain ⟨key, session, value⟩ := number
      rw [hnumber] at h
      obtain rfl := pure_ok h
      by_cases hmine : key = keyId ∧ session = sessionId
      · obtain ⟨rfl, rfl⟩ := hmine
        cases hget : accounting.groups.get (key, session) <;> simp [Accounting.valuesOf, SignerGroup.add, hget]
      · have hne : ¬(key, session) = (keyId, sessionId) := by simpa using hmine
        simp [Accounting.valuesOf, OrderedMap.get_set, hne, hmine]

theorem signerGroups_values {events : List (Option Json)} {accounting : Accounting}
    (h : signerGroups P events = .ok accounting) (keyId sessionId : JsString) :
    accounting.valuesOf keyId sessionId = (listedEvents events).filterMap (numberIn keyId sessionId) := by
  refine foldlM_ok_invariant
    (fun done accounting => accounting.valuesOf keyId sessionId = done.filterMap (numberIn keyId sessionId))
    (listedEvents events) ?_ rfl h
  intro done event rest before after _ hdone hstep
  rw [accountEvent_values hstep, hdone, List.filterMap_append]
  cases hn : numberIn keyId sessionId event <;> simp [hn]

theorem listedEvents_eq (hvalid : ∀ record ∈ records, ValidRecord record) :
    listedEvents (records.map StoredRecord.event) =
      (records.filterMap StoredRecord.event).filter isSessionScoped := by
  induction records with
  | nil => rfl
  | cons record rest ih =>
      obtain ⟨event, hevent, hv⟩ := (hvalid record (by simp)).event
      obtain ⟨version, hsealed⟩ := sealedEvent_of_valid hv
      obtain ⟨members, rfl⟩ := hsealed.isObject
      have hrest := ih fun r hr => hvalid r (by simp [hr])
      unfold listedEvents at hrest ⊢
      rw [List.map_cons, List.filterMap_cons, List.filterMap_cons_some hevent, hevent, filter_session_obj,
        List.filter_cons, hrest]
      cases isSessionScoped (.obj members) <;> rfl

theorem filter_filterMap {α β : Type} (p : α → Bool) (f : α → Option β) (l : List α) :
    (l.filter p).filterMap f = l.filterMap fun a => if p a then f a else none := by
  rw [List.filterMap_filter]

-- Where one of two readings of a list never says more than the other, and both come to
-- the same list, they agree at every element.
theorem filterMap_eq_of_le {α β : Type} {f g : α → Option β} {l : List α}
    (hle : ∀ a ∈ l, f a = none ∨ f a = g a) (h : l.filterMap f = l.filterMap g) : ∀ a ∈ l, f a = g a := by
  have hlength : l.countP (fun a => (f a).isSome) = l.countP fun a => (g a).isSome := by
    rw [← List.length_filterMap_eq_countP, ← List.length_filterMap_eq_countP, h]
  clear h
  induction l with
  | nil => simp
  | cons a rest ih =>
      have hrest : ∀ b ∈ rest, f b = none ∨ f b = g b := fun b hb => hle b (by simp [hb])
      have hmono : rest.countP (fun b => (f b).isSome) ≤ rest.countP fun b => (g b).isSome := by
        refine List.countP_mono_left fun b hb hf => ?_
        rcases hrest b hb with hn | he
        · rw [hn] at hf
          cases hf
        · rwa [← he]
      rw [List.countP_cons, List.countP_cons] at hlength
      have hhead : f a = g a := by
        rcases hle a (by simp) with hn | he
        · cases hg : g a with
          | none => exact hn
          | some value =>
              rw [hn, hg] at hlength
              simp at hlength
              omega
        · exact he
      rw [hhead] at hlength
      intro b hb
      rcases List.mem_cons.mp hb with rfl | hm
      · exact hhead
      · exact ih hrest (by omega) b hm

theorem numberIn_eq_some {keyId sessionId : JsString} {event : Json} {n : Nat} :
    numberIn keyId sessionId event = some n ↔ accountedNumber event = some (keyId, sessionId, n) := by
  unfold numberIn
  cases accountedNumber event with
  | none => simp
  | some number =>
      obtain ⟨key, session, value⟩ := number
      by_cases hmine : key = keyId ∧ session = sessionId
      · simp [hmine]
      · simp only [Option.bind_some, if_neg hmine, reduceCtorEq, Option.some.injEq, Prod.mk.injEq, false_iff]
        tauto

theorem sessionNumber_of_accounted {event : Json} {keyId sessionId : JsString} {n : Nat}
    (h : accountedNumber event = some (keyId, sessionId, n)) :
    ∃ signerSeq, sessionNumber event = some (keyId, sessionId, signerSeq) := by
  unfold accountedNumber at h
  unfold sessionNumber
  split at h
  · rename_i key session number hk hsession hn
    obtain ⟨m, -, hm⟩ := Option.map_eq_some_iff.mp h
    obtain ⟨rfl, rfl, rfl⟩ : key = keyId ∧ session = sessionId ∧ m = n := by simpa using hm
    exact ⟨number, by simp [hk, hsession, hn]⟩
  · cases h

theorem safeNatural_ofNat {n : Nat} (h : (n : ℚ) ≤ MAX_SAFE_INTEGER) : safeNatural (.ofNat n) = some n := by
  have hpos : (0 : ℚ) ≤ n := Rat.num_nonneg.mp (by simp)
  unfold safeNatural JsNum.ofNat
  simp [h, hpos]

-- A signed event of v0.3 or later has a number to account for.
theorem accounted_of_signed {event : Json} {version : JsString} (h : SealedEvent event version)
    (hv : version ∈ SESSION_VERSIONS) (hsigned : isSigned event = true) :
    ∃ keyId sessionId n, accountedNumber event = some (keyId, sessionId, n) := by
  have hlevel := h.level2 hv
  obtain ⟨session, hsession⟩ := h.session hv
  have hall : (event.get Fields.KEY_ID).isSome = true ∧ (event.get Fields.SIGNER_SEQ).isSome = true := by
    cases hk : event.get Fields.KEY_ID <;> cases hn : event.get Fields.SIGNER_SEQ <;>
      cases hs : event.get Fields.SIGNATURE <;> simp [level2Together, isSigned, hk, hn, hs] at hlevel hsigned ⊢
  obtain ⟨key, hkey⟩ : ∃ key, event.get Fields.KEY_ID = some (.str key) := by
    rcases h.keyId with hn | hk
    · rw [hn] at hall
      cases hall.1
    · exact hk
  obtain ⟨n, hn, hle⟩ : ∃ n : Nat, event.get Fields.SIGNER_SEQ = some (.num (.ofNat n)) ∧
      (n : ℚ) ≤ MAX_SAFE_INTEGER := by
    rcases h.signerSeq hv with hn | hk
    · rw [hn] at hall
      cases hall.2
    · exact hk
  exact ⟨key, session, n, by simp [accountedNumber, hkey, hsession, hn, safeNatural_ofNat hle]⟩

-- The grouping takes in the signed events of v0.3 or later, and no other, exactly where
-- no v0.3 event is signed.
theorem values_iff (hvalid : ∀ record ∈ records, ValidRecord record) {accounting : Accounting}
    (h : signerGroups P (records.map StoredRecord.event) = .ok accounting) :
    (∀ keyId sessionId, accounting.valuesOf keyId sessionId =
        signedNumbers (records.filterMap StoredRecord.event) keyId sessionId) ↔
      ∀ record ∈ records, ∀ event, record.event = some event → ¬SignedV03 event := by
  have hsealed : ∀ event ∈ records.filterMap StoredRecord.event, ∃ version, SealedEvent event version := by
    intro event he
    obtain ⟨record, hr, hevent⟩ := List.mem_filterMap.mp he
    exact sealedEvent_of_record (hvalid record hr) hevent
  have hread (keyId sessionId : JsString) : accounting.valuesOf keyId sessionId =
      (records.filterMap StoredRecord.event).filterMap
        fun event => if isSessionScoped event then numberIn keyId sessionId event else none := by
    rw [signerGroups_values h, listedEvents_eq hvalid, filter_filterMap]
  have hclaim (keyId sessionId : JsString) : signedNumbers (records.filterMap StoredRecord.event) keyId sessionId =
      (records.filterMap StoredRecord.event).filterMap
        fun event => if fromV03 event && isSigned event then numberIn keyId sessionId event else none :=
    filter_filterMap _ _ _
  have hle (keyId sessionId : JsString) : ∀ event ∈ records.filterMap StoredRecord.event,
      (if isSessionScoped event then numberIn keyId sessionId event else none) = none ∨
        (if isSessionScoped event then numberIn keyId sessionId event else none) =
          if fromV03 event && isSigned event then numberIn keyId sessionId event else none := by
    intro event he
    obtain ⟨version, hs⟩ := hsealed event he
    cases hn : numberIn keyId sessionId event with
    | none => simp
    | some n =>
        cases hscoped : isSessionScoped event with
        | false => simp
        | true =>
            have hfrom := fromV03_of_scoped hs hscoped
            obtain ⟨signerSeq, hnumber⟩ := sessionNumber_of_accounted (numberIn_eq_some.mp hn)
            simp [hfrom, signed_of_number hs ((fromV03_iff hs).mp hfrom) hnumber]
  constructor
  · rintro hall record hr event hevent ⟨hfrom, hscoped, hsigned⟩
    have he : event ∈ records.filterMap StoredRecord.event := List.mem_filterMap.mpr ⟨record, hr, hevent⟩
    obtain ⟨version, hs⟩ := hsealed event he
    obtain ⟨keyId, sessionId, n, hnumber⟩ := accounted_of_signed hs ((fromV03_iff hs).mp hfrom) hsigned
    have hsame := hall keyId sessionId
    rw [hread, hclaim] at hsame
    have := filterMap_eq_of_le (hle keyId sessionId) hsame event he
    simp [hscoped, hfrom, hsigned, numberIn_eq_some.mpr hnumber] at this
  · intro hunsigned keyId sessionId
    rw [hread, hclaim]
    refine List.filterMap_congr fun event he => ?_
    rcases hle keyId sessionId event he with hnone | hsame
    · obtain ⟨record, hr, hevent⟩ := List.mem_filterMap.mp he
      rw [hnone]
      by_cases hboth : fromV03 event = true ∧ isSigned event = true
      · have hscoped : isSessionScoped event = true := by
          by_contra hn
          exact hunsigned record hr event hevent ⟨hboth.1, by simpa using hn, hboth.2⟩
        rw [if_pos hscoped] at hnone
        simp [hnone]
      · rw [if_neg (by simpa using hboth)]
    · exact hsame

end Accounts

-- The findings of a report about one record are the walk's.
theorem concerns_iff {P : Primitives} {records : List StoredRecord} {inputs : VerifyInputs} {report : VerifyReport}
    {walk : Walk} {events : List (Option Json)} {gaps : List UnaccountedSignerSeq} {digest : List VerifyIssue}
    (h : Verified P records inputs report walk events gaps digest) (kind : Tier1Code) (i : Nat) :
    (∃ issue ∈ report.issues, issue.concerns kind i) ↔ walk.Reported kind i := by
  rw [h.issues]
  constructor
  · rintro ⟨issue, hi, hc⟩
    rcases List.mem_append.mp hi with hm | hd
    · rcases List.mem_append.mp hm with hw | hg
      · exact ⟨issue, hw, hc⟩
      · obtain ⟨gap, -, rfl⟩ := List.mem_map.mp hg
        obtain ⟨-, seq, hseq⟩ := hc
        cases hseq
    · obtain ⟨-, seq, hseq⟩ := hc
      rw [((digestIssues_kind h.compared).1 issue hd).2] at hseq
      cases hseq
  · rintro ⟨issue, hi, hc⟩
    exact ⟨issue, by simp [hi], hc⟩

-- The gap findings of a report are those of its accounting.
theorem gap_issues {P : Primitives} {records : List StoredRecord} {inputs : VerifyInputs} {report : VerifyReport}
    {walk : Walk} {events : List (Option Json)} {gaps : List UnaccountedSignerSeq} {digest : List VerifyIssue}
    (h : Verified P records inputs report walk events gaps digest) :
    (report.issues.filter fun issue => issue.kind = .signerSeqGap) = gaps.map (gapIssue P) := by
  have hwalk : (walk.issues.filter fun issue => issue.kind = .signerSeqGap) = [] := by
    refine List.filter_eq_nil_iff.mpr fun issue hi hk => ?_
    have := walk_kinds h.walked issue hi
    rw [show issue.kind = .signerSeqGap by simpa using hk] at this
    simp [walkKinds, besideChain, besideSignature, identityKinds] at this
  have hdigest : (digest.filter fun issue => issue.kind = .signerSeqGap) = [] := by
    refine List.filter_eq_nil_iff.mpr fun issue hi hk => ?_
    rw [((digestIssues_kind h.compared).1 issue hi).1] at hk
    simp at hk
  have hgaps : ((gaps.map (gapIssue P)).filter fun issue => issue.kind = .signerSeqGap) = gaps.map (gapIssue P) := by
    refine List.filter_eq_self.mpr fun issue hi => ?_
    obtain ⟨gap, -, rfl⟩ := List.mem_map.mp hi
    simp [gapIssue]
  rw [h.issues, List.filter_append, List.filter_append, hwalk, hdigest, hgaps]
  simp

theorem accountsExactly_iff {P : Primitives} {records : List StoredRecord} {inputs : VerifyInputs}
    {report : VerifyReport} {walk : Walk} {gaps : List UnaccountedSignerSeq} {digest : List VerifyIssue}
    (hvalid : ∀ record ∈ records, ValidRecord record)
    (h : Verified P records inputs report walk (records.map StoredRecord.event) gaps digest) :
    AccountsExactly P records report ↔
      ∀ record ∈ records, ∀ event, record.event = some event → ¬SignedV03 event := by
  obtain ⟨accounting, hgroups, hgaps⟩ := bind_ok h.accounted
  unfold AccountsExactly
  rw [← values_iff hvalid hgroups]
  constructor
  · rintro ⟨other, ho, -, hvalues⟩
    obtain rfl : accounting = other := Except.ok.inj (by rw [← hgroups, ho])
    exact hvalues
  · intro hvalues
    refine ⟨accounting, hgroups, ?_, hvalues⟩
    rw [gap_issues h, ← pure_ok hgaps]

-- Over records that are valid under their own versions, the per-session findings cover
-- what they are to cover exactly where no v0.3 event is signed, no success or failure is
-- misled, and no number sealed twice goes unread.
theorem per_session_findings_iff (P : Primitives) {records : List StoredRecord}
    (hvalid : ∀ record ∈ records, ValidRecord record) :
    (∀ anchored, ∃ report, verifyChain P records (.anchored anchored) = .ok report) ∧
      ∀ inputs report, inputs.adapter = DEFAULT_ADAPTER → verifyChain P records inputs = .ok report →
        (PerSessionFindings P records report ↔ Unaffected records) := by
  refine ⟨fun anchored => verifyChain_isOk_of_valid anchored hvalid, fun inputs report hadapter hreport => ?_⟩
  obtain ⟨walk, events, gaps, digest, hverified⟩ := verifyChain_verified hreport
  have hlooked := looked_all hadapter hvalid hverified.walked
  have hevents : events = records.map StoredRecord.event := by
    have hread := hverified.read
    rw [hadapter] at hread
    exact (Except.ok.inj ((eventsOf_default records none).symm.trans hread)).symm
  subst hevents
  have hbefore {i : Nat} : ∀ earlier ∈ records.take i, ValidRecord earlier :=
    fun earlier he => hvalid earlier (List.mem_of_mem_take he)
  have horphans : (∀ i, (∃ issue ∈ report.issues, issue.concerns .orphanedOutcome i) ↔ Occurs Orphaned records i) ↔
      Each (fun before record => ¬Misled before record) records := by
    simp only [concerns_iff hverified, hlooked.orphans]
    rw [Occurs.congr_iff]
    refine forall_congr' fun i => forall_congr' fun record => imp_congr_right fun hi => ?_
    exact orphaned_iff_not_misled hbefore (hvalid record (List.mem_of_getElem? hi))
  have hreplays (hunsigned : ∀ record ∈ records, ∀ event, record.event = some event → ¬SignedV03 event) :
      (∀ i, (∃ issue ∈ report.issues, issue.concerns .replayDetected i) ↔ Occurs Replayed records i) ↔
        Each (fun before record => ¬Unread before record) records := by
    simp only [concerns_iff hverified, hlooked.replays]
    rw [Occurs.congr_iff]
    refine forall_congr' fun i => forall_congr' fun record => imp_congr_right fun hi => ?_
    exact replayed_iff_not_unread hbefore (hvalid record (List.mem_of_getElem? hi))
      (fun earlier he => hunsigned earlier (List.mem_of_mem_take he)) (hunsigned record (List.mem_of_getElem? hi))
  have haccounts := accountsExactly_iff hvalid hverified
  constructor
  · rintro ⟨ho, hr, ha⟩
    have hunsigned := haccounts.mp ha
    exact ⟨hunsigned, horphans.mp ho, (hreplays hunsigned).mp hr⟩
  · rintro ⟨hunsigned, hpaired, hread⟩
    exact ⟨horphans.mpr hpaired, (hreplays hunsigned).mpr hread, haccounts.mpr hunsigned⟩

section

open Reference

def storedRecords (events : List Json) : List StoredRecord := (sealedRecords events).map SealedRecord.toStored

theorem storedRecords_valid (events : List Json) (hlength : (sealedRecords events).length = events.length)
    (hvalid : ∀ event ∈ events, firstSealedValidationError (some event) = none) :
    ∀ record ∈ storedRecords events, ValidRecord record := by
  intro record hr
  obtain ⟨sealedRecord, hs, rfl⟩ := List.mem_map.mp hr
  have hentry := List.mem_map_of_mem (f := fun record : SealedRecord => (record.event, record.host_ts)) hs
  rw [sealedRecords_events hlength] at hentry
  obtain ⟨event, he, hentry⟩ := List.mem_map.mp hentry
  obtain ⟨hevent, hts⟩ := Prod.mk.inj hentry
  exact ⟨⟨sealedRecord.event, rfl, hevent ▸ hvalid event he⟩, ⟨_, rfl⟩, ⟨NOON, hts.symm⟩, ⟨_, rfl⟩, ⟨_, rfl⟩⟩

-- An operation that is attempted and then succeeds.
def concludedOperation : List Json :=
  [toolEvent SESSION_A EVENT_1 Outcome.ATTEMPTED [], toolEvent SESSION_A EVENT_1 Outcome.SUCCESS []]

theorem concludedOperation_findings : ∃ report,
    verifyChain primitives (storedRecords concludedOperation) (.anchored none) = .ok report ∧
      (PerSessionFindings primitives (storedRecords concludedOperation) report ↔
        Unaffected (storedRecords concludedOperation)) := by
  have hvalid := storedRecords_valid concludedOperation (by decide +kernel) (by decide +kernel)
  obtain ⟨hreports, hfindings⟩ := per_session_findings_iff primitives hvalid
  obtain ⟨report, hreport⟩ := hreports none
  exact ⟨report, hreport, hfindings _ report rfl hreport⟩

-- A success in one session under the id of an attempt in another.
def crossedOperation : List Json :=
  [eventOf "auditable-mcp/0.3" (Fields.SESSION_ID, .str SESSION_A) EVENT_1 Outcome.ATTEMPTED [],
   eventOf "auditable-mcp/0.3" (Fields.SESSION_ID, .str SESSION_B) EVENT_1 Outcome.SUCCESS []]

def noOrphans (report : Except JsError VerifyReport) : Bool :=
  match report with
  | .ok report => report.issues.all fun issue => issue.kind ≠ .orphanedOutcome
  | .error _ => true

-- The walk takes both for one operation, since a v0.3 event has no `call_id`.
theorem crossedOperation_missed : ¬∀ records inputs report, (∀ record ∈ records, ValidRecord record) →
    inputs.adapter = DEFAULT_ADAPTER → verifyChain primitives records inputs = .ok report →
    PerSessionFindings primitives records report := by
  intro h
  have hlength : (sealedRecords crossedOperation).length = crossedOperation.length := by decide +kernel
  have hvalid := storedRecords_valid crossedOperation hlength (by decide +kernel)
  obtain ⟨report, hreport⟩ := verifyChain_isOk_of_valid (P := primitives) none hvalid
  have hno : noOrphans (verifyChain primitives (storedRecords crossedOperation) (.anchored none)) = true := by
    decide +kernel
  rw [hreport] at hno
  have horphan : Occurs Orphaned (storedRecords crossedOperation) 1 := by
    have hevents := sealedRecords_events hlength
    obtain ⟨attempt, success, hrecords⟩ := List.length_eq_two.mp hlength
    unfold storedRecords
    rw [hrecords] at hevents ⊢
    simp only [crossedOperation, List.map_cons, List.map_nil, List.cons.injEq, Prod.mk.injEq, and_true] at hevents
    obtain ⟨⟨hattempt, -⟩, hsuccess, -⟩ := hevents
    refine ⟨success.toStored, rfl, success.event, rfl, ?_, ?_⟩
    · rw [hsuccess]
      exact Or.inl (by decide +kernel)
    · rintro ⟨earlier, he, event, hevent, -, -, -, hsession⟩
      rw [List.mem_singleton.mp he, SealedRecord.toStored, Option.some.injEq, hattempt] at hevent
      rw [← hevent, hsuccess, if_pos (by decide +kernel)] at hsession
      exact absurd (Json.str.inj (Option.some.inj hsession)) (by decide)
  obtain ⟨issue, hi, hkind, -⟩ := ((h _ _ report hvalid rfl hreport).orphans 1).mpr horphan
  exact absurd hkind (by simpa using List.all_eq_true.mp hno issue hi)

end

end AuditableMcp
