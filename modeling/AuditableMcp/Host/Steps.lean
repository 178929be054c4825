import AuditableMcp.Host.Frames

namespace AuditableMcp

-- A record that continues a ledger, countersigned completely or not at all.
structure Continues (P : Primitives) (ledger : Ledger) (event : Json) (record : SealedRecord) : Prop where
  carries : record.event = event
  seq : record.seq = ledger.count
  previous_hash : record.previous_hash = ledger.tailHash
  record_hash : linkHash P ledger.count ledger.tailHash (event, record.host_ts) = some record.record_hash
  key : record.host_signature.isSome = record.host_key_id.isSome
  log : record.host_signature.isSome = record.log_id.isSome

theorem prepare_some {P : Primitives} {answers : Answers} {event : Json} {host : AuditHost}
    {record : SealedRecord} (h : prepare P answers event host = .ok (some record)) :
    Continues P host.ledger event record := by
  unfold prepare at h
  cases hs : host.ledger.sealRecord P event (some (.str answers.now)) with
  | error e => simp [hs, bind, Except.bind] at h
  | ok base =>
      obtain ⟨hhash, hbase⟩ := Ledger.sealRecord_ok hs
      simp only [hs, bind, Except.bind, pure, Except.pure] at h
      split at h
      · simp only [Except.ok.injEq, Option.some.injEq] at h
        subst h
        rw [hbase]
        exact ⟨rfl, rfl, rfl, hhash, rfl, rfl⟩
      · split at h
        · cases h
        · split at h
          · simp at h
          · simp only [Except.ok.injEq, Option.some.injEq] at h
            subst h
            rw [hbase]
            exact ⟨rfl, rfl, rfl, hhash, rfl, rfl⟩

-- What a repository holds once a record was persisted.
def World.keeping (w : World) (record : SealedRecord) : List SealedRecord :=
  if w.host.config.repository then w.stored ++ [record] else w.stored

theorem persist_done {answers : Answers} {w : World} {record : SealedRecord} {stored : List SealedRecord}
    (h : persist answers w record = (stored, false)) : stored = w.keeping record := by
  unfold persist appendRecord at h
  unfold World.keeping
  split at h
  · rename_i hrepo
    rw [if_pos hrepo]
    split at h
    · simp at h
    · cases ha : answers.append <;> simp_all
  · rename_i hrepo
    rw [if_neg hrepo]
    simpa using h.symm

theorem persist_threw {answers : Answers} {w : World} {record : SealedRecord} {stored : List SealedRecord}
    (h : persist answers w record = (stored, true)) :
    w.host.config.repository = true ∧ (stored = w.stored ∨ stored = w.stored ++ [record]) := by
  unfold persist appendRecord at h
  split at h
  · rename_i hrepo
    refine ⟨hrepo, ?_⟩
    split at h
    · exact Or.inl (by simpa using h.symm)
    · cases ha : answers.append <;> simp_all
  · simp at h

-- The host once a record is committed and remembered.
def AuditHost.committing (host : AuditHost) (record : SealedRecord) (digest : JsString) : AuditHost :=
  ({ host with ledger := host.ledger.commit record } : AuditHost).noteSealed record digest

-- What `#seal` leaves behind, by whether it refused, lost sight of the record, or sealed it.
inductive Seals (P : Primitives) (event : Json) (w : World) : World → Option SealedRecord → Prop where
  | refused : Seals P event w w none
  | lost (hrepo : w.host.config.repository = true) :
      Seals P event w ⟨{ w.host with tailUncertain := true }, w.stored⟩ none
  | landed (record : SealedRecord) (hrepo : w.host.config.repository = true)
      (hcont : Continues P w.host.ledger event record) :
      Seals P event w ⟨{ w.host with tailUncertain := true }, w.stored ++ [record]⟩ none
  | sealed (record : SealedRecord) (digest : JsString) (hcont : Continues P w.host.ledger event record)
      (hdigest : digestOf P event = .ok digest) :
      Seals P event w ⟨w.host.committing record digest, w.keeping record⟩ (some record)

theorem sealEvent_seals {P : Primitives} {answers : Answers} {event : Json} {w : World}
    (hadm : Admissible event) {w' : World} {result : Except JsError (Option SealedRecord)}
    (h : sealEvent P answers event w = (w', result)) :
    (∃ e, result = .error e ∧ w' = w) ∨ ∃ record, result = .ok record ∧ Seals P event w w' record := by
  unfold sealEvent at h
  cases hp : prepare P answers event w.host with
  | error e =>
      simp only [hp, Prod.mk.injEq] at h
      exact Or.inl ⟨e, h.2.symm, h.1.symm⟩
  | ok prepared =>
      cases prepared with
      | none =>
          simp only [hp, Prod.mk.injEq] at h
          obtain ⟨rfl, rfl⟩ := h
          exact Or.inr ⟨none, rfl, .refused⟩
      | some record =>
          have hcont := prepare_some hp
          simp only [hp] at h
          cases hs : persist answers w record with
          | mk stored threw =>
              cases threw with
              | true =>
                  simp only [hs, Prod.mk.injEq] at h
                  obtain ⟨rfl, rfl⟩ := h
                  obtain ⟨hrepo, rfl | rfl⟩ := persist_threw hs
                  · exact Or.inr ⟨none, rfl, .lost hrepo⟩
                  · exact Or.inr ⟨none, rfl, .landed record hrepo hcont⟩
              | false =>
                  obtain rfl := persist_done hs
                  have hdigest := hadm.digestOf_ok P
                  simp only [hs, AuditHost.remember, hcont.carries, hdigest, bind, Except.bind, pure, Except.pure,
                    Prod.mk.injEq] at h
                  obtain ⟨rfl, rfl⟩ := h
                  exact Or.inr ⟨some record, rfl, .sealed record _ hcont hdigest⟩

-- The record a doubtful append left behind, where it is the one after the host's own tail.
def World.landed (w : World) : Option SealedRecord :=
  if w.host.tailUncertain && w.host.config.repository && !tailUnchanged w.stored.getLast? w.host.ledger then
    w.stored.getLast?.filter fun record =>
      record.seq = w.host.ledger.count && record.previous_hash = w.host.ledger.digest
  else none

-- A record the settling of the tail would take over.
structure Landed (w : World) (record : SealedRecord) : Prop where
  uncertain : w.host.tailUncertain = true
  repository : w.host.config.repository = true
  last : w.stored.getLast? = some record
  changed : tailUnchanged (some record) w.host.ledger = false
  seq : record.seq = w.host.ledger.count
  previous_hash : record.previous_hash = w.host.ledger.digest

theorem landed_eq_some {w : World} {record : SealedRecord} : w.landed = some record ↔ Landed w record := by
  unfold World.landed
  constructor
  · intro h
    split at h
    · rename_i hdoubt
      simp only [Bool.and_eq_true, Bool.not_eq_true'] at hdoubt
      obtain ⟨hlast, hr⟩ := Option.filter_eq_some_iff.mp h
      simp only [Bool.and_eq_true, decide_eq_true_eq] at hr
      exact ⟨hdoubt.1.1, hdoubt.1.2, hlast, by rw [← hlast]; exact hdoubt.2, hr.1, hr.2⟩
    · cases h
  · intro h
    have hdoubt : (w.host.tailUncertain && w.host.config.repository &&
        !tailUnchanged w.stored.getLast? w.host.ledger) = true := by
      simp [h.uncertain, h.repository, h.last, h.changed]
    rw [if_pos hdoubt, h.last]
    simp [Option.filter, h.seq, h.previous_hash]

-- The host once it has taken over a record that landed.
def AuditHost.adopting (host : AuditHost) (record : SealedRecord) (digest sessionId : JsString) : AuditHost :=
  let host := host.committing record digest
  { (if isAttempted record.event then host.acceptId sessionId (eventId record.event) else host) with
    tailUncertain := false }

-- How the doubt about a tail is settled before a call goes on; the index is the record adopted.
inductive Settles (P : Primitives) (w : World) : Option SealedRecord → World → Prop where
  | kept : Settles P w none w
  | confirmed (hrepo : w.host.config.repository = true)
      (hsame : tailUnchanged w.stored.getLast? w.host.ledger = true) :
      Settles P w none (w.withHost { w.host with tailUncertain := false })
  | adopted (record : SealedRecord) (digest sessionId : JsString) (hlanded : Landed w record)
      (hdigest : digestOf P record.event = .ok digest)
      (hsession : record.event.get Fields.SESSION_ID = some (.str sessionId)) :
      Settles P w (some record) (w.withHost (w.host.adopting record digest sessionId))

theorem adopt_eq {P : Primitives} (host : AuditHost) {record : SealedRecord} (hadm : Admissible record.event) :
    ∃ digest sessionId, digestOf P record.event = .ok digest ∧
      record.event.get Fields.SESSION_ID = some (.str sessionId) ∧
      adopt P host record = (host.adopting record digest sessionId, .ok true) := by
  obtain ⟨sessionId, hs⟩ := hadm.current.session
  have hdigest := hadm.digestOf_ok P
  refine ⟨_, sessionId, hdigest, hs, ?_⟩
  simp only [adopt, AuditHost.remember, hdigest, bind, Except.bind, pure, Except.pure, hs, stringOfOption,
    stringOf]
  rfl

theorem settleTail_settles {P : Primitives} {w w' : World} {result : Except JsError Bool}
    (hstored : ∀ record ∈ w.stored, Admissible record.event) (huncertain : w.host.tailUncertain = true)
    (hrepo : w.host.config.repository = true) (h : settleTail P .reads w = (w', result)) :
    ∃ adopted, Settles P w adopted w' ∧ (result = .ok true → w'.host.tailUncertain = false) := by
  unfold settleTail at h
  dsimp only at h
  split at h
  · rename_i hsame
    simp only [Prod.mk.injEq] at h
    obtain ⟨rfl, rfl⟩ := h
    exact ⟨none, .confirmed hrepo hsame, fun _ => rfl⟩
  · rename_i hchanged
    split at h
    · simp only [Prod.mk.injEq] at h
      obtain ⟨rfl, rfl⟩ := h
      exact ⟨none, .kept, by simp⟩
    · rename_i record hlast
      split at h
      · simp only [Prod.mk.injEq] at h
        obtain ⟨rfl, rfl⟩ := h
        exact ⟨none, .kept, by simp⟩
      · rename_i hnext
        rw [not_or, not_not, not_not] at hnext
        have hlanded : Landed w record :=
          ⟨huncertain, hrepo, hlast, by rw [← hlast]; simpa using hchanged, hnext.1, hnext.2⟩
        obtain ⟨digest, sessionId, hdigest, hs, hadopt⟩ :=
          adopt_eq (P := P) w.host (hstored record (List.mem_of_getLast? hlast))
        simp only [hadopt, Prod.mk.injEq] at h
        obtain ⟨rfl, rfl⟩ := h
        exact ⟨some record, .adopted record digest sessionId hlanded hdigest hs, fun _ => rfl⟩

-- `#chainKnown`: a chain that is known afterwards has no doubt left, unless there is no
-- repository to ask, and only a tail that was read is adopted from.
theorem chainKnown_settles {P : Primitives} {answers : Answers} {w w' : World} {result : Except JsError Bool}
    (hstored : ∀ record ∈ w.stored, Admissible record.event) (h : chainKnown P answers w = (w', result)) :
    ∃ adopted, Settles P w adopted w' ∧ (adopted ≠ none → answers.loadTail = .reads) ∧
      (result = .ok true → w'.host.config.repository = true → w'.host.tailUncertain = false) := by
  unfold chainKnown at h
  split at h
  · rename_i hclear
    simp only [Prod.mk.injEq] at h
    obtain ⟨rfl, rfl⟩ := h
    exact ⟨none, .kept, by simp, fun _ hrepo => by simpa [hrepo] using hclear⟩
  · rename_i hdoubt
    simp only [Bool.or_eq_true, Bool.not_eq_true', not_or, Bool.not_eq_false] at hdoubt
    cases ht : answers.loadTail with
    | reads =>
        rw [ht] at h
        obtain ⟨adopted, hsettles, hknown⟩ := settleTail_settles hstored hdoubt.1 hdoubt.2 h
        exact ⟨adopted, hsettles, fun _ => rfl, fun hok _ => hknown hok⟩
    | repositoryError =>
        simp only [ht, settleTail, Prod.mk.injEq] at h
        obtain ⟨rfl, rfl⟩ := h
        exact ⟨none, .kept, by simp, by simp⟩
    | fails error =>
        simp only [ht, settleTail, Prod.mk.injEq] at h
        obtain ⟨rfl, rfl⟩ := h
        exact ⟨none, .kept, by simp, by simp⟩

end AuditableMcp
