import AuditableMcp.Host.Books
import AuditableMcp.Host.Proper
import AuditableMcp.Host.Uniqueness

-- What a session is that was restored from its records and the tracker kept beside them.
namespace AuditableMcp

-- A number that a record of the session was signed under.
def NumberIn (records : List SealedRecord) (sessionId keyId : JsString) (signerSeq : JsNum) : Prop :=
  ∃ record ∈ records, inSession record sessionId ∧ numberOf record.event = some (keyId, signerSeq)

theorem NumberIn.mono {records : List SealedRecord} {sessionId keyId : JsString} {signerSeq : JsNum}
    (h : NumberIn records sessionId keyId signerSeq) (record : SealedRecord) :
    NumberIn (records ++ [record]) sessionId keyId signerSeq := by
  obtain ⟨other, ho, hrest⟩ := h
  exact ⟨other, by simp [ho], hrest⟩

-- A session that knows no number but those of its records.
structure Recalled (sessionId : JsString) (session : Session) (records : List SealedRecord) : Prop where
  decided : ∀ keyId values, session.decided.get keyId = some values →
    (∃ signerSeq, NumberIn records sessionId keyId signerSeq) ∧
      ∀ signerSeq ∈ values, NumberIn records sessionId keyId signerSeq
  received : ∀ keyId signerSeq, session.received.get keyId = some signerSeq →
    NumberIn records sessionId keyId signerSeq

theorem JsNum.max_or (a b : JsNum) : a.max b = a ∨ a.max b = b := by
  unfold JsNum.max
  split
  · exact Or.inl rfl
  · exact Or.inr rfl
  · split
    · exact Or.inr rfl
    · exact Or.inl rfl

-- A finite number that is not above another adds nothing to the other.
theorem JsNum.max_fin_of_not_lt {value : ℚ} {n : JsNum} (h : n.lt (.fin value) = false) : (JsNum.fin value).max n = n := by
  cases n with
  | nan => rfl
  | posInf => rfl
  | negInf => cases h
  | fin other =>
      have hle : value ≤ other := by simpa [JsNum.lt] using h
      unfold JsNum.max
      rcases hle.lt_or_eq with hlt | rfl
      · simp [JsNum.lt, hlt]
      · simp

theorem Recalled.restoredNumber {sessionId : JsString} {session : Session} {records : List SealedRecord}
    {record : SealedRecord} (h : Recalled sessionId session records) (hin : inSession record sessionId) :
    Recalled sessionId (restoredNumber record.event session) (records ++ [record]) := by
  unfold AuditableMcp.restoredNumber
  split
  · rename_i key number hkey hnumber
    have hown : NumberIn (records ++ [record]) sessionId key number :=
      ⟨record, by simp, hin, by simp [numberOf, hkey, hnumber]⟩
    refine ⟨fun keyId values hget => ?_, fun keyId signerSeq hget => ?_⟩
    · rw [OrderedMap.get_set] at hget
      by_cases hk : key = keyId
      · subst hk
        rw [if_pos rfl] at hget
        refine ⟨⟨number, hown⟩, fun signerSeq hm => ?_⟩
        rw [← Option.some.inj hget, mem_addTo] at hm
        rcases hm with hm | rfl
        · cases hold : session.decided.get key with
          | none => simp [hold] at hm
          | some old =>
              rw [hold] at hm
              exact ((h.decided key old hold).2 signerSeq hm).mono record
        · exact hown
      · rw [if_neg hk] at hget
        obtain ⟨⟨some, hsome⟩, hall⟩ := h.decided keyId values hget
        exact ⟨⟨some, hsome.mono record⟩, fun signerSeq hm => (hall signerSeq hm).mono record⟩
    · rw [OrderedMap.get_set] at hget
      by_cases hk : key = keyId
      · subst hk
        rw [if_pos rfl] at hget
        rw [← Option.some.inj hget]
        cases hold : session.received.get key with
        | none =>
            have hsame : number.max number = number := (JsNum.max_or number number).elim id id
            simpa [hsame] using hown
        | some old =>
            rcases JsNum.max_or old number with hmax | hmax
            · simpa [hmax] using (h.received key old hold).mono record
            · simpa [hmax] using hown
      · rw [if_neg hk] at hget
        exact (h.received keyId signerSeq hget).mono record
  · refine ⟨fun keyId values hget => ?_, fun keyId signerSeq hget => (h.received keyId signerSeq hget).mono record⟩
    obtain ⟨⟨some, hsome⟩, hall⟩ := h.decided keyId values hget
    exact ⟨⟨some, hsome.mono record⟩, fun signerSeq hm => (hall signerSeq hm).mono record⟩

theorem Recalled.passed {sessionId : JsString} {session : Session} {records : List SealedRecord}
    (h : Recalled sessionId session records) (record : SealedRecord) :
    Recalled sessionId session (records ++ [record]) := by
  refine ⟨fun keyId values hget => ?_, fun keyId signerSeq hget => (h.received keyId signerSeq hget).mono record⟩
  obtain ⟨⟨some, hsome⟩, hall⟩ := h.decided keyId values hget
  exact ⟨⟨some, hsome.mono record⟩, fun signerSeq hm => (hall signerSeq hm).mono record⟩

theorem restoredSession_recalled {P : Primitives} {sessionId : JsString} {records : List SealedRecord}
    {session : Session} (hadm : ∀ record ∈ records, Admissible record.event)
    (h : restoredSession P sessionId records = .ok session) : Recalled sessionId session records := by
  refine foldlM_ok_invariant (fun done session => Recalled sessionId session done) records ?_ ?_ h
  · intro done record rest before after hsplit hrecalled hstep
    have hrecord := hadm record (by rw [hsplit]; simp)
    have hversion : Json.isText (record.event.get Fields.SPEC_VERSION) SPEC_VERSION = true :=
      Json.isText_eq_true.mpr hrecord.current.version
    by_cases hin : inSession record sessionId
    · have hnumbered := hrecalled.restoredNumber hin
      rcases restoredRecord_taken hin hversion hstep with ⟨-, rfl⟩ | ⟨-, digest, -, rfl⟩
      · exact ⟨hnumbered.decided, hnumbered.received⟩
      · exact ⟨hnumbered.decided, hnumbered.received⟩
    · rw [restoredRecord_skipped (fun htaken => hin htaken.1) hstep]
      exact hrecalled.passed record
  · exact ⟨fun keyId values hget => by simp [Session.new] at hget, fun keyId n hget => by simp [Session.new] at hget⟩

-- The number of an admissible event is a finite one.
theorem Admissible.number_fin {event : Json} (h : Admissible event) {keyId : JsString} {signerSeq : JsNum}
    (hn : numberOf event = some (keyId, signerSeq)) : ∃ value, signerSeq = .fin value := by
  unfold numberOf at hn
  split at hn
  · rename_i key number _ hnumber
    obtain ⟨-, rfl⟩ := Prod.mk.inj (Option.some.inj hn)
    rcases h.current.signerSeq with hnone | ⟨m, hm, -⟩
    · rw [hnone] at hnumber
      cases hnumber
    · rw [hm] at hnumber
      cases hnumber
      exact ⟨(m : ℚ), rfl⟩
  · cases hn

-- The terminal outcomes a session holds are those of its records, with their digests.
def Ended (P : Primitives) (sessionId : JsString) (session : Session) (records : List SealedRecord) : Prop :=
  ∀ id digest, session.terminal.get id = some digest → ∃ record ∈ records, inSession record sessionId ∧
    isAttempted record.event = false ∧ eventId record.event = id ∧ digestOf P record.event = .ok digest

theorem Ended.mono {P : Primitives} {sessionId : JsString} {session later : Session} {records : List SealedRecord}
    (h : Ended P sessionId session records) (hterminal : later.terminal = session.terminal) (record : SealedRecord) :
    Ended P sessionId later (records ++ [record]) := by
  intro id digest hget
  rw [hterminal] at hget
  obtain ⟨other, ho, hrest⟩ := h id digest hget
  exact ⟨other, by simp [ho], hrest⟩

theorem ended_kept (P : Primitives) : Bookkeeping P (Ended P) where
  fresh := fun sessionId records _ id digest hget => by simp [Session.new] at hget
  same := by
    intro sessionId session later records h hsame id digest hget
    rw [hsame.terminal] at hget
    exact h id digest hget
  passed := fun _ _ _ record h _ => h.mono rfl record
  attempted := fun _ _ _ record h _ _ => h.mono rfl record
  repeated := fun _ _ _ _ h _ => h
  concluded := by
    intro sessionId session records record digest h hin hkind hdigest id other hget
    rw [OrderedMap.get_set] at hget
    by_cases hid : eventId record.event = id
    · rw [if_pos hid] at hget
      exact ⟨record, by simp, hin, hkind, hid, by rw [hdigest, Option.some.inj hget]⟩
    · rw [if_neg hid] at hget
      exact h.mono rfl record id other hget

section

variable {session : Session} {keyId : JsString}

theorem foldl_withReceived_decided (entries : List (JsString × JsNum)) (session : Session) :
    (entries.foldl Session.withReceived session).decided = session.decided := by
  induction entries generalizing session with
  | nil => rfl
  | cons entry rest ih => exact ih _

theorem foldl_withDecided_received (entries : List (JsString × List JsNum)) (session : Session) :
    (entries.foldl Session.withDecided session).received = session.received := by
  induction entries generalizing session with
  | nil => rfl
  | cons entry rest ih => exact ih _

theorem foldl_withReceived_absent {entries : List (JsString × JsNum)} (h : keyId ∉ entries.map Prod.fst)
    (session : Session) :
    (entries.foldl Session.withReceived session).received.get keyId = session.received.get keyId := by
  induction entries generalizing session with
  | nil => rfl
  | cons entry rest ih =>
      simp only [List.map_cons, List.mem_cons, not_or] at h
      rw [List.foldl_cons, ih h.2]
      exact OrderedMap.get_set_of_ne _ _ (Ne.symm h.1)

theorem foldl_withReceived_present {entries : List (JsString × JsNum)} (hkeys : (entries.map Prod.fst).Nodup)
    {value : JsNum} (h : OrderedMap.lookup entries keyId = some value) (session : Session) :
    (entries.foldl Session.withReceived session).received.get keyId =
      some (((session.received.get keyId).getD value).max value) := by
  induction entries generalizing session with
  | nil => cases h
  | cons entry rest ih =>
      rw [List.map_cons, List.nodup_cons] at hkeys
      rw [List.foldl_cons]
      by_cases hk : entry.1 = keyId
      · subst hk
        obtain rfl : entry.2 = value := by simpa [OrderedMap.lookup] using h
        rw [foldl_withReceived_absent hkeys.1]
        exact OrderedMap.get_set_self _ _ _
      · rw [ih hkeys.2 (by simpa [OrderedMap.lookup, hk] using h)]
        simp only [Session.withReceived, OrderedMap.get_set_of_ne _ _ hk]

theorem foldl_withDecided_absent {entries : List (JsString × List JsNum)} (h : keyId ∉ entries.map Prod.fst)
    (session : Session) :
    (entries.foldl Session.withDecided session).decided.get keyId = session.decided.get keyId := by
  induction entries generalizing session with
  | nil => rfl
  | cons entry rest ih =>
      simp only [List.map_cons, List.mem_cons, not_or] at h
      rw [List.foldl_cons, ih h.2]
      exact OrderedMap.get_set_of_ne _ _ (Ne.symm h.1)

theorem foldl_withDecided_present {entries : List (JsString × List JsNum)} (hkeys : (entries.map Prod.fst).Nodup)
    {values : List JsNum} (h : OrderedMap.lookup entries keyId = some values) (session : Session) :
    (entries.foldl Session.withDecided session).decided.get keyId =
      some (values.foldl addTo ((session.decided.get keyId).getD [])) := by
  induction entries generalizing session with
  | nil => cases h
  | cons entry rest ih =>
      rw [List.map_cons, List.nodup_cons] at hkeys
      rw [List.foldl_cons]
      by_cases hk : entry.1 = keyId
      · subst hk
        obtain rfl : entry.2 = values := by simpa [OrderedMap.lookup] using h
        rw [foldl_withDecided_absent hkeys.1]
        exact OrderedMap.get_set_self _ _ _
      · rw [ih hkeys.2 (by simpa [OrderedMap.lookup, hk] using h)]
        simp only [Session.withDecided, OrderedMap.get_set_of_ne _ _ hk]

theorem mem_foldl_addTo_iff (values numbers : List JsNum) (n : JsNum) :
    n ∈ values.foldl addTo numbers ↔ n ∈ numbers ∨ n ∈ values := by
  induction values generalizing numbers with
  | nil => simp
  | cons value rest ih =>
      rw [List.foldl_cons, ih, mem_addTo, List.mem_cons, or_assoc]

end

-- What a live session knows of some records, so that its tracker and the records give it back.
structure Complete (P : Primitives) (sessionId : JsString) (session : Session) (records : List SealedRecord) :
    Prop where
  proper : session.Proper
  books : Books sessionId session records
  ended : Ended P sessionId session records
  terminal : ∀ record ∈ records, inSession record sessionId → isAttempted record.event = false →
    (session.terminal.get (eventId record.event)).isSome = true
  decided : ∀ keyId signerSeq, NumberIn records sessionId keyId signerSeq → session.hasDecided keyId signerSeq
  reached : ∀ keyId signerSeq, NumberIn records sessionId keyId signerSeq → session.hasReached keyId signerSeq

section

variable {P : Primitives} {sessionId : JsString} {session base : Session} {records : List SealedRecord}

theorem restored_accepted (h : Complete P sessionId session records) (hadm : ∀ record ∈ records, Admissible record.event)
    (hbase : restoredSession P sessionId records = .ok base) : session.accepted.Perm base.accepted := by
  have hbooks := (books_kept P).restored hadm hbase
  apply (List.perm_ext_iff_of_nodup h.proper.accepted (restoredSession_proper hbase).accepted).mpr
  intro id
  rw [h.books.accepted, hbooks.accepted]

-- A terminal outcome of one operation of the session.
def EndsOperation (sessionId id : JsString) (record : SealedRecord) : Prop :=
  inSession record sessionId ∧ isAttempted record.event = false ∧ eventId record.event = id

-- Where nothing follows a terminal outcome, an operation has one of them.
theorem endsOperation_unique (honce : records.Pairwise fun first second => ¬AfterTerminal first second) {id : JsString}
    {first second : SealedRecord} (hf : first ∈ records) (hs : second ∈ records)
    (hfirst : EndsOperation sessionId id first) (hsecond : EndsOperation sessionId id second) : first = second := by
  have hnot {a b : SealedRecord} (ha : EndsOperation sessionId id a) (hb : EndsOperation sessionId id b) :
      AfterTerminal a b := ⟨⟨sessionId, ha.1, hb.1⟩, ha.2.2.trans hb.2.2.symm, ha.2.1⟩
  let R : SealedRecord → SealedRecord → Prop := fun a b =>
    EndsOperation sessionId id a → EndsOperation sessionId id b → a = b
  have hforward : records.Pairwise R := honce.imp fun h ha hb => absurd (hnot ha hb) h
  have hbackward : records.Pairwise (flip R) := honce.imp fun h hb ha => absurd (hnot ha hb) h
  exact List.Pairwise.forall_of_forall_of_flip (R := R) (fun _ _ _ _ => rfl) hforward hbackward hf hs hfirst hsecond

theorem ended_some (hended : Ended P sessionId session records) {id digest : JsString}
    (hget : session.terminal.get id = some digest) :
    ∃ record ∈ records, EndsOperation sessionId id record ∧ digestOf P record.event = .ok digest := by
  obtain ⟨record, hr, hin, hkind, hid, hdigest⟩ := hended id digest hget
  exact ⟨record, hr, ⟨hin, hkind, hid⟩, hdigest⟩

-- One outcome for an operation: both sessions hold its digest.
theorem restored_terminal (h : Complete P sessionId session records) (hadm : ∀ record ∈ records, Admissible record.event)
    (honce : records.Pairwise fun first second => ¬AfterTerminal first second)
    (hbase : restoredSession P sessionId records = .ok base) (id : JsString) :
    session.terminal.get id = base.terminal.get id := by
  have hended := (ended_kept P).restored hadm hbase
  have hterminal := (restoredSession_restoredFrom hbase).terminal
  cases hlive : session.terminal.get id with
  | some digest =>
      obtain ⟨record, hr, hends, hdigest⟩ := ended_some h.ended hlive
      have hsome := hterminal record hr (hadm record hr) hends.1 hends.2.1
      rw [hends.2.2] at hsome
      obtain ⟨other, hother⟩ := Option.isSome_iff_exists.mp hsome
      obtain ⟨again, ha, hends', hdigest'⟩ := ended_some hended hother
      rw [endsOperation_unique honce hr ha hends hends'] at hdigest
      rw [hother, Except.ok.inj (hdigest.symm.trans hdigest')]
  | none =>
      cases hrestored : base.terminal.get id with
      | none => rfl
      | some digest =>
          obtain ⟨record, hr, hends, -⟩ := ended_some hended hrestored
          have hsome := h.terminal record hr hends.1 hends.2.1
          rw [hends.2.2, hlive] at hsome
          cases hsome

-- Every number the records give back is one the live session decided.
theorem restored_decided (h : Complete P sessionId session records) (hadm : ∀ record ∈ records, Admissible record.event)
    (hbase : restoredSession P sessionId records = .ok base) (keyId : JsString) :
    Option.Rel List.Perm (session.decided.get keyId)
      ((base.withSigners (some session.signerTracker)).decided.get keyId) := by
  have hrecalled := restoredSession_recalled hadm hbase
  have hkeys : session.signerTracker.decided.map Prod.fst = session.decided.keys := by
    simp [Session.signerTracker, OrderedMap.keys, Function.comp_def]
  have hdistinct : (session.signerTracker.decided.map Prod.fst).Nodup := by
    rw [hkeys]
    exact h.proper.keys
  have hlookup : OrderedMap.lookup session.signerTracker.decided keyId =
      (session.decided.get keyId).map fun values => values.insertionSort numberOrder :=
    OrderedMap.lookup_map _ _ _
  simp only [Session.withSigners, foldl_withReceived_decided]
  cases hlive : session.decided.get keyId with
  | none =>
      have habsent : keyId ∉ session.signerTracker.decided.map Prod.fst := by
        rw [hkeys, OrderedMap.mem_keys_iff h.proper.keys, hlive]
        exact Bool.false_ne_true
      rw [foldl_withDecided_absent habsent]
      cases hold : base.decided.get keyId with
      | none => exact .none
      | some values =>
          obtain ⟨⟨signerSeq, hnumber⟩, -⟩ := hrecalled.decided keyId values hold
          have hdecided := h.decided keyId signerSeq hnumber
          simp [Session.hasDecided, hlive] at hdecided
  | some values =>
      rw [hlive] at hlookup
      rw [foldl_withDecided_present hdistinct hlookup]
      apply Option.Rel.some
      apply (List.perm_ext_iff_of_nodup (h.proper.decided keyId values hlive) (Session.Proper.foldl_addTo
        (SameBook.nodup_getD (restoredSession_proper hbase) keyId))).mpr
      intro n
      rw [mem_foldl_addTo_iff, List.mem_insertionSort]
      constructor
      · exact Or.inr
      · rintro (hold | hm)
        · cases hget : base.decided.get keyId with
          | none => simp [hget] at hold
          | some old =>
              rw [hget] at hold
              have hdecided := h.decided keyId n ((hrecalled.decided keyId old hget).2 n hold)
              simpa [Session.hasDecided, hlive] using hdecided
        · exact hm

theorem restored_received (h : Complete P sessionId session records) (hadm : ∀ record ∈ records, Admissible record.event)
    (hbase : restoredSession P sessionId records = .ok base) (keyId : JsString) :
    session.received.get keyId = (base.withSigners (some session.signerTracker)).received.get keyId := by
  have hrecalled := restoredSession_recalled hadm hbase
  have hdecided := foldl_withDecided_received session.signerTracker.decided base
  simp only [Session.withSigners]
  cases hlive : session.received.get keyId with
  | none =>
      have habsent : keyId ∉ session.received.keys := by
        rw [OrderedMap.mem_keys_iff h.proper.bounds, hlive]
        exact Bool.false_ne_true
      have hkept := foldl_withReceived_absent habsent (session.signerTracker.decided.foldl Session.withDecided base)
      refine Eq.trans ?_ hkept.symm
      rw [hdecided]
      cases hold : base.received.get keyId with
      | none => rfl
      | some signerSeq =>
          obtain ⟨highest, hget, -⟩ := h.reached keyId signerSeq (hrecalled.received keyId signerSeq hold)
          rw [hlive] at hget
          cases hget
  | some highest =>
      have hraised := foldl_withReceived_present h.proper.bounds hlive
        (session.signerTracker.decided.foldl Session.withDecided base)
      refine Eq.trans ?_ hraised.symm
      rw [hdecided]
      cases hold : base.received.get keyId with
      | none =>
          have hsame : highest.max highest = highest := (JsNum.max_or highest highest).elim id id
          rw [Option.getD_none, hsame]
      | some signerSeq =>
          obtain ⟨record, hr, hin, hnumber⟩ := hrecalled.received keyId signerSeq hold
          obtain ⟨value, rfl⟩ := (hadm record hr).number_fin hnumber
          obtain ⟨other, hget, hlt⟩ := h.reached keyId _ ⟨record, hr, hin, hnumber⟩
          obtain rfl : highest = other := Option.some.inj (hlive.symm.trans hget)
          rw [Option.getD_some, JsNum.max_fin_of_not_lt hlt]

-- A session and what its records and its tracker give back of it hold the same books.
theorem restored_sameBook (h : Complete P sessionId session records) (hadm : ∀ record ∈ records, Admissible record.event)
    (honce : records.Pairwise fun first second => ¬AfterTerminal first second)
    (hbase : restoredSession P sessionId records = .ok base) :
    SameBook True session (base.withSigners (some session.signerTracker)) := by
  have hsame := sameSession_withSigners base (some session.signerTracker)
  exact
    { proper := h.proper
      accepted := by rw [hsame.accepted]; exact restored_accepted h hadm hbase
      terminal := fun id => by rw [hsame.terminal]; exact restored_terminal h hadm honce hbase id
      decided := restored_decided h hadm hbase
      received := fun _ => restored_received h hadm hbase }

end

end AuditableMcp
