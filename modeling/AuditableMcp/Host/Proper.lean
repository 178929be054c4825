import AuditableMcp.Host.Likeness
import AuditableMcp.Host.Restart

-- A host holds nothing twice, also after a restart, and so is like itself.
namespace AuditableMcp

theorem Session.proper_new : Session.new.Proper :=
  ⟨List.nodup_nil, List.nodup_nil, fun keyId values h => by simp [Session.new] at h, List.nodup_nil⟩

theorem SameBook.refl {bounds : Prop} {session : Session} (h : session.Proper) : SameBook bounds session session := by
  refine ⟨h, .refl _, fun _ => rfl, fun keyId => ?_, fun _ _ => rfl⟩
  cases session.decided.get keyId with
  | none => exact .none
  | some values => exact .some (.refl values)

theorem SameBook.self {session : Session} (h : session.Proper) : SameBook True session session := .refl h

namespace Session.Proper

variable {session : Session}

theorem setDecided (h : session.Proper) (keyId : JsString) {values : List JsNum} (hdistinct : values.Nodup) :
    Proper { session with decided := session.decided.set keyId values } :=
  ((SameBook.self h).setDecided keyId hdistinct (.refl values)).proper

theorem setReceived (h : session.Proper) (keyId : JsString) (signerSeq : JsNum) :
    Proper { session with received := session.received.set keyId signerSeq } :=
  ((SameBook.self h).setReceived keyId signerSeq).proper

theorem restoredNumber (h : session.Proper) (event : Json) : (restoredNumber event session).Proper := by
  unfold AuditableMcp.restoredNumber
  split
  · rename_i keyId signerSeq _ _
    exact (h.setDecided keyId (nodup_addTo (SameBook.nodup_getD h keyId) signerSeq)).setReceived keyId _
  · exact h

theorem restoredRecord {P : Primitives} {sessionId : JsString} {record : SealedRecord} {after : Session}
    (h : session.Proper) (hstep : restoredRecord P sessionId session record = .ok after) : after.Proper := by
  have hnumber := h.restoredNumber record.event
  unfold AuditableMcp.restoredRecord at hstep
  dsimp only at hstep
  split at hstep
  · rwa [← pure_ok hstep]
  · split at hstep
    · rw [← pure_ok hstep]
      exact ((SameBook.self hnumber).acceptId _).proper
    · obtain ⟨digest, -, hstep⟩ := bind_ok hstep
      rw [← pure_ok hstep]
      exact ((SameBook.self hnumber).setTerminal _ digest).proper

theorem foldl_addTo {values numbers : List JsNum} (h : numbers.Nodup) : (values.foldl addTo numbers).Nodup := by
  induction values generalizing numbers with
  | nil => exact h
  | cons value rest ih => exact ih (nodup_addTo h value)

theorem foldl {α : Type} {change : Session → α → Session}
    (hchange : ∀ session entry, session.Proper → (change session entry).Proper) (h : session.Proper)
    (entries : List α) : (entries.foldl change session).Proper := by
  induction entries generalizing session with
  | nil => exact h
  | cons entry rest ih => exact ih (hchange session entry h)

theorem withSigners (h : session.Proper) (signers : Option SignerTracker) : (session.withSigners signers).Proper := by
  cases signers with
  | none => exact h
  | some signers =>
      have hdecided : (signers.decided.foldl Session.withDecided session).Proper :=
        h.foldl (fun _ entry hs => hs.setDecided entry.1 (foldl_addTo (SameBook.nodup_getD hs entry.1))) _
      exact hdecided.foldl (fun _ entry hs => hs.setReceived entry.1 _) signers.received

end Session.Proper

theorem restoredSession_proper {P : Primitives} {sessionId : JsString} {records : List SealedRecord}
    {session : Session} (h : restoredSession P sessionId records = .ok session) : session.Proper :=
  foldlM_ok_invariant (fun _ session => session.Proper) records
    (fun _ _ _ _ _ _ hbefore hstep => hbefore.restoredRecord hstep) Session.proper_new h

structure AuditHost.Proper (host : AuditHost) : Prop where
  distinct : host.sessions.keys.Nodup
  sessions : ∀ sessionId session, host.sessions.get sessionId = some session → session.Proper

-- What holds at the start of a restart and is kept by every step of it holds of its host.
theorem resume_induction {P : Primitives} {I : AuditHost → Prop} {config : HostConfig} {records : List SealedRecord}
    {openSessions : List OpenSession} {host : AuditHost}
    (hstart : I { AuditHost.new config with ledger := Ledger.resumeFrom records.getLast? })
    (hrecord : ∀ before record after, I before → before.resumeRecord P record = .ok after → I after)
    (hopened : ∀ before entry after, I before → before.resumeSession P records entry = .ok after → I after)
    (hflag : ∀ before id detail, I before → I (before.flag id .unresolvedAttempt detail))
    (h : AuditHost.resume P config records openSessions = .ok host) : I host := by
  unfold AuditHost.resume at h
  obtain ⟨remembered, hremembered, h⟩ := bind_ok h
  obtain ⟨reopened, hreopened, h⟩ := bind_ok h
  have hrem : I remembered := foldlM_ok_invariant (fun _ host => I host) records
    (fun _ _ _ _ _ _ hbefore hstep => hrecord _ _ _ hbefore hstep) hstart hremembered
  have hre : I reopened := foldlM_ok_invariant (fun _ host => I host) openSessions
    (fun _ _ _ _ _ _ hbefore hstep => hopened _ _ _ hbefore hstep) hrem hreopened
  have hflags (detail : JsString → AnomalyDetail) (ids : List JsString) : ∀ before, I before →
      I (ids.foldl (fun host id => host.flag id .unresolvedAttempt (detail id)) before) := by
    induction ids with
    | nil => exact fun _ hbefore => hbefore
    | cons id rest ih => exact fun before hbefore => ih _ (hflag before id (detail id) hbefore)
  obtain ⟨attempts, -, h⟩ := bind_ok h
  rw [← pure_ok h]
  exact hflags _ _ _ hre

theorem resumeRecord_sessions {P : Primitives} {before after : AuditHost} {record : SealedRecord}
    (h : before.resumeRecord P record = .ok after) : after.sessions = before.sessions := by
  unfold AuditHost.resumeRecord at h
  obtain ⟨remembered, hremembered, h⟩ := bind_ok h
  unfold AuditHost.remember at hremembered
  obtain ⟨digest, -, hremembered⟩ := bind_ok hremembered
  have hnoted : (before.noteSealed record digest).sessions = before.sessions := by
    unfold AuditHost.noteSealed
    split <;> rfl
  rw [← pure_ok hremembered] at h
  split at h
  · rw [← pure_ok h]
    exact hnoted
  · rw [← pure_ok h]
    exact hnoted

theorem resume_proper {P : Primitives} {config : HostConfig} {records : List SealedRecord}
    {openSessions : List OpenSession} {host : AuditHost}
    (h : AuditHost.resume P config records openSessions = .ok host) : host.Proper := by
  apply resume_induction (I := AuditHost.Proper) _ _ _ _ h
  · exact ⟨List.nodup_nil, fun sessionId session hs => by simp [AuditHost.new] at hs⟩
  · intro before record after hbefore hstep
    have hsame := resumeRecord_sessions hstep
    exact ⟨hsame ▸ hbefore.distinct, hsame ▸ hbefore.sessions⟩
  · intro before entry after hbefore hstep
    unfold AuditHost.resumeSession at hstep
    obtain ⟨base, hbase, hstep⟩ := bind_ok hstep
    rw [← pure_ok hstep]
    refine ⟨OrderedMap.nodup_keys_set hbefore.distinct _ _, fun sessionId session hs => ?_⟩
    rw [OrderedMap.get_set] at hs
    by_cases hid : entry.sessionId = sessionId
    · rw [if_pos hid] at hs
      rw [← Option.some.inj hs]
      exact (restoredSession_proper hbase).withSigners entry.signers
    · rw [if_neg hid] at hs
      exact hbefore.sessions sessionId session hs
  · exact fun before id detail hbefore => ⟨hbefore.distinct, hbefore.sessions⟩

theorem Alike.refl (L : Likeness) (settled : Prop) {host : AuditHost} (h : host.Proper) :
    Alike L (.empty L) settled host host :=
  { config := rfl
    persistenceAvailable := rfl
    count := rfl
    tailHash := rfl
    records := ⟨_, rfl, rfl⟩
    issued := fun _ _ => Iff.rfl
    tailUncertain := fun _ => rfl
    sealedAttempts := fun _ => rfl
    sealedDigests := fun _ => Iff.rfl
    rejectedIds := fun _ _ => Iff.rfl
    distinct := h.distinct
    sessions := by
      intro sessionId
      cases hget : host.sessions.get sessionId with
      | none => exact .none
      | some session => exact .some (.refl (h.sessions sessionId session hget))
    anomalies := ⟨_, rfl, rfl⟩ }

theorem Alike.proper {L : Likeness} {base : Base L} {settled : Prop} {first second : AuditHost}
    (h : Alike L base settled first second) : first.Proper := by
  refine ⟨h.distinct, fun sessionId session hs => ?_⟩
  rcases h.session_cases sessionId with ⟨hf, -⟩ | ⟨s, t, hf, -, hbook⟩
  · rw [hf] at hs
    cases hs
  · rw [hf] at hs
    rw [← Option.some.inj hs]
    exact hbook.proper

end AuditableMcp
