import AuditableMcp.Host.Deliveries

-- What one call records beside its answer, and for what.
namespace AuditableMcp

-- Why a host refuses an event.
inductive RefusalCause where
  | notObject
  | malformed
  | foreignSession
  | unsigned
  | unverified (reason : RejectReason)
  | sealedDifferently
  | concluded
  | decidedNumber
  | orphaned

-- The kind of anomaly a cause is recorded as.
def RefusalCause.kind : RefusalCause → Tier1Code
  | .notObject => .schemaInvalid
  | .malformed => .schemaInvalid
  | .foreignSession => .replayDetected
  | .unsigned => .signatureInvalid
  | .unverified _ => .signatureInvalid
  | .sealedDifferently => .replayDetected
  | .concluded => .replayDetected
  | .decidedNumber => .replayDetected
  | .orphaned => .orphanedOutcome

-- The reason a reject gives for it. A refused outcome is given none.
def RefusalCause.reason : RefusalCause → Option RejectReason
  | .malformed => some .schemaInvalid
  | .foreignSession => some .replayDetected
  | .unsigned => some .l2Unsigned
  | .unverified reason => some reason
  | .sealedDifferently => some .replayDetected
  | .concluded => some .replayDetected
  | .decidedNumber => some .replayDetected
  | .notObject => none
  | .orphaned => none

-- The kind recorded with a reject: a missing signature and an unknown key are invalid signatures.
def RejectReason.anomalyKind : RejectReason → Tier1Code
  | .schemaInvalid => .schemaInvalid
  | .replayDetected => .replayDetected
  | .signatureInvalid => .signatureInvalid
  | .l2Unsigned => .signatureInvalid
  | .unknownKey => .signatureInvalid

-- What `SignatureVerifier.verify` returns for an event that does not verify.
def Answers.VerdictDocumented (answers : Answers) : Prop :=
  ∀ reason, answers.verdict = .ok (some reason) → reason = .unknownKey ∨ reason = .signatureInvalid

-- Any cause but a verifier's own word is recorded as the kind of its reason.
theorem RefusalCause.kind_eq {cause : RefusalCause} {reason : RejectReason} (h : cause.reason = some reason)
    (hverdict : ∀ own, cause = .unverified own → own = .unknownKey ∨ own = .signatureInvalid) :
    cause.kind = reason.anomalyKind := by
  cases cause with
  | unverified own =>
      obtain rfl : own = reason := Option.some.inj h
      rcases hverdict own rfl with rfl | rfl
      · rfl
      · rfl
  | notObject => cases h
  | orphaned => cases h
  | _ =>
      obtain rfl := Option.some.inj h
      rfl

namespace AuditHost

def terminalDigest (host : AuditHost) (sessionId id : JsString) : Option JsString :=
  (host.sessions.get sessionId).bind fun session => session.terminal.get id

def hasDecided (host : AuditHost) (sessionId keyId : JsString) (signerSeq : JsNum) : Prop :=
  ∃ session, host.sessions.get sessionId = some session ∧ session.hasDecided keyId signerSeq

end AuditHost

-- When a cause holds, by the event and the host as the event is taken up.
def RefusalCause.Holds (P : Primitives) (answers : Answers) (host : AuditHost) (event : Json)
    (expected : Option JsString) (attempt : Bool) : RefusalCause → Prop
  | .notObject => event.isObject = false ∧ attempt = false
  | .malformed =>
      firstValidationError (some event) ≠ none ∨ hasUnsafeNumber event = true ∨ isAttempted event ≠ attempt
  | .foreignSession => ∀ sessionId, event.get Fields.SESSION_ID = some (.str sessionId) →
      host.sessions.has sessionId = false ∨ expected ≠ none ∧ expected ≠ some sessionId
  | .unsigned => host.config.capability.level = .L2 ∧ AuditHost.level2Fields event = none
  | .unverified reason => host.config.capability.level = .L2 ∧ answers.verdict = .ok (some reason)
  | .sealedDifferently => attempt = true ∧ ∃ record, host.sealedAttempts.get (eventId event) = some record ∧
      sameBytes P record.event event = .ok false
  | .concluded => ∃ sessionId terminal, event.get Fields.SESSION_ID = some (.str sessionId) ∧
      host.terminalDigest sessionId (eventId event) = some terminal ∧
      (attempt = true ∨ digestOf P event ≠ .ok terminal)
  | .decidedNumber => ∃ sessionId keyId signerSeq, event.get Fields.SESSION_ID = some (.str sessionId) ∧
      host.signedNumber event = some (keyId, signerSeq) ∧ host.hasDecided sessionId keyId signerSeq
  | .orphaned => attempt = false ∧ Json.isText (event.get Fields.OUTCOME) Outcome.ABORTED = false ∧
      ∃ sessionId, event.get Fields.SESSION_ID = some (.str sessionId) ∧
        isAccepted host sessionId (eventId event) = false

-- At most one anomaly, for a number past the expected one.
def GapAtMost (event : Json) (gap : List IntegrityAnomaly) : Prop :=
  gap = [] ∨ ∃ detail, gap = [⟨eventId event, .signerSeqGap, detail⟩]

-- A call that accuses nobody.
def Unaccused (event : Json) (before after : AuditHost) : Prop :=
  ∃ gap, GapAtMost event gap ∧ after.anomalies = before.anomalies ++ gap

-- A call that records one anomaly for what it refuses.
def Accused (event : Json) (kind : Tier1Code) (before after : AuditHost) : Prop :=
  ∃ gap detail, GapAtMost event gap ∧ after.anomalies = before.anomalies ++ gap ++ [⟨eventId event, kind, detail⟩]

section Anomalies

variable {P : Primitives} {answers : Answers} {event : Json} {w : World} (host : AuditHost) (sessionId id : JsString)

@[simp] theorem modifySession_anomalies (change : Session → Session) :
    (host.modifySession sessionId change).anomalies = host.anomalies := by
  obtain ⟨sessions, hs⟩ := host.modifySession_fields sessionId change
  rw [hs]

@[simp] theorem acceptId_anomalies : (host.acceptId sessionId id).anomalies = host.anomalies :=
  modifySession_anomalies host sessionId _

@[simp] theorem setTerminal_anomalies (digest : JsString) :
    (host.setTerminal sessionId id digest).anomalies = host.anomalies :=
  modifySession_anomalies host sessionId _

@[simp] theorem decide_anomalies (event : Json) : (host.decide event sessionId).anomalies = host.anomalies := by
  unfold AuditHost.decide
  split
  · exact modifySession_anomalies host sessionId _
  · rfl

@[simp] theorem rejectId_anomalies : (host.rejectId id).anomalies = host.anomalies := rfl

@[simp] theorem flag_anomalies (kind : Tier1Code) (detail : AnomalyDetail) :
    (host.flag id kind detail).anomalies = host.anomalies ++ [⟨id, kind, detail⟩] := rfl

theorem remember_anomalies {host later : AuditHost} {record : SealedRecord} (h : host.remember P record = .ok later) :
    later.anomalies = host.anomalies := by
  obtain ⟨digest, -, hnoted⟩ := bind_ok h
  rw [← pure_ok hnoted]
  unfold AuditHost.noteSealed
  dsimp only
  split <;> rfl

theorem sealEvent_anomalies : (sealEvent P answers event w).1.host.anomalies = w.host.anomalies := by
  unfold sealEvent
  split
  · rfl
  · rfl
  · split
    · rfl
    · dsimp only
      split
      · rfl
      · rename_i hremembered
        have hkept := remember_anomalies hremembered
        exact hkept

theorem adopt_anomalies (record : SealedRecord) : (adopt P host record).1.anomalies = host.anomalies := by
  unfold adopt
  dsimp only
  split
  · rfl
  · rename_i hremembered
    have hkept := remember_anomalies hremembered
    split
    · exact hkept
    · split
      · simpa using hkept
      · exact hkept

-- Settling the tail records nothing and stores nothing.
theorem chainKnown_quiet : (chainKnown P answers w).1.host.anomalies = w.host.anomalies ∧
    (chainKnown P answers w).1.stored = w.stored := by
  unfold chainKnown settleTail
  split
  · exact ⟨rfl, rfl⟩
  · split
    · exact ⟨rfl, rfl⟩
    · exact ⟨rfl, rfl⟩
    · dsimp only
      split
      · exact ⟨rfl, rfl⟩
      · split
        · exact ⟨rfl, rfl⟩
        · split
          · exact ⟨rfl, rfl⟩
          · exact ⟨adopt_anomalies w.host _, rfl⟩

end Anomalies

-- Hearing an event changes at most the numbers received.
structure Hears (before after : AuditHost) : Prop where
  config : after.config = before.config
  sealedAttempts : after.sealedAttempts = before.sealedAttempts
  session : ∀ sessionId, ∃ change : Session → Session,
    (∀ session, (change session).accepted = session.accepted ∧ (change session).terminal = session.terminal ∧
      (change session).decided = session.decided) ∧
    after.sessions.get sessionId = (before.sessions.get sessionId).map change

namespace Hears

variable {a b c : AuditHost}

theorem of_sessions_eq (hconfig : b.config = a.config) (hsealed : b.sealedAttempts = a.sealedAttempts)
    (hsessions : b.sessions = a.sessions) : Hears a b :=
  ⟨hconfig, hsealed, fun _ => ⟨id, fun _ => ⟨rfl, rfl, rfl⟩, by rw [hsessions, Option.map_id_fun, id]⟩⟩

theorem receive (P : Primitives) (host : AuditHost) (event : Json) (sessionId keyId : JsString) (signerSeq : JsNum) :
    Hears host (host.receive P event sessionId keyId signerSeq) := by
  have hnoted := Noted.receive P host event sessionId keyId signerSeq
  refine ⟨hnoted.config, hnoted.sealedAttempts, fun other => ?_⟩
  unfold AuditHost.receive
  dsimp only
  split
  · by_cases ho : sessionId = other
    · refine ⟨fun session => { session with received := session.received.set keyId signerSeq },
        fun _ => ⟨rfl, rfl, rfl⟩, ?_⟩
      rw [AuditHost.get_modifySession, if_pos ho, AuditHost.gapFlagged_sessions, ho]
    · refine ⟨id, fun _ => ⟨rfl, rfl, rfl⟩, ?_⟩
      rw [AuditHost.get_modifySession, if_neg ho, AuditHost.gapFlagged_sessions, Option.map_id_fun, id]
  · refine ⟨id, fun _ => ⟨rfl, rfl, rfl⟩, ?_⟩
    rw [AuditHost.gapFlagged_sessions, Option.map_id_fun, id]

theorem isAccepted (h : Hears a b) (sessionId id : JsString) :
    AuditableMcp.isAccepted b sessionId id = AuditableMcp.isAccepted a sessionId id := by
  obtain ⟨change, hchange, hget⟩ := h.session sessionId
  unfold AuditableMcp.isAccepted
  rw [hget]
  cases a.sessions.get sessionId with
  | none => rfl
  | some session => simp [(hchange session).1]

theorem terminalDigest (h : Hears a b) (sessionId id : JsString) :
    b.terminalDigest sessionId id = a.terminalDigest sessionId id := by
  obtain ⟨change, hchange, hget⟩ := h.session sessionId
  unfold AuditHost.terminalDigest
  rw [hget]
  cases a.sessions.get sessionId with
  | none => rfl
  | some session => simp [(hchange session).2.1]

theorem hasDecided (h : Hears a b) {sessionId keyId : JsString} {signerSeq : JsNum}
    (hdecided : b.hasDecided sessionId keyId signerSeq) : a.hasDecided sessionId keyId signerSeq := by
  obtain ⟨change, hchange, hget⟩ := h.session sessionId
  obtain ⟨later, hlater, hmem⟩ := hdecided
  rw [hget] at hlater
  obtain ⟨session, hsession, rfl⟩ := Option.map_eq_some_iff.mp hlater
  refine ⟨session, hsession, ?_⟩
  unfold Session.hasDecided at hmem ⊢
  rwa [(hchange session).2.2] at hmem

theorem isOpen (h : Hears a b) (sessionId : JsString) : b.sessions.has sessionId = a.sessions.has sessionId := by
  obtain ⟨change, -, hget⟩ := h.session sessionId
  rw [OrderedMap.has, OrderedMap.has, hget, Option.isSome_map]

theorem signedNumber (h : Hears a b) (event : Json) : b.signedNumber event = a.signedNumber event := by
  unfold AuditHost.signedNumber
  rw [h.config]

-- What holds of a host that has heard the event held of it before.
theorem holds {P : Primitives} {answers : Answers} {event : Json} {expected : Option JsString} {attempt : Bool}
    {cause : RefusalCause} (h : Hears a b) (hcause : cause.Holds P answers b event expected attempt) :
    cause.Holds P answers a event expected attempt := by
  cases cause with
  | notObject => exact hcause
  | malformed => exact hcause
  | foreignSession =>
      intro sessionId hnamed
      rw [← h.isOpen sessionId]
      exact hcause sessionId hnamed
  | unsigned => exact ⟨h.config ▸ hcause.1, hcause.2⟩
  | unverified reason => exact ⟨h.config ▸ hcause.1, hcause.2⟩
  | sealedDifferently =>
      obtain ⟨hattempt, record, hrecord, hsame⟩ := hcause
      exact ⟨hattempt, record, h.sealedAttempts ▸ hrecord, hsame⟩
  | concluded =>
      obtain ⟨sessionId, terminal, hnamed, hterminal, hdiffers⟩ := hcause
      exact ⟨sessionId, terminal, hnamed, by rwa [h.terminalDigest] at hterminal, hdiffers⟩
  | decidedNumber =>
      obtain ⟨sessionId, keyId, signerSeq, hnamed, hnumber, hdecided⟩ := hcause
      exact ⟨sessionId, keyId, signerSeq, hnamed, by rwa [h.signedNumber] at hnumber, h.hasDecided hdecided⟩
  | orphaned =>
      obtain ⟨hattempt, houtcome, sessionId, hnamed, haccepted⟩ := hcause
      exact ⟨hattempt, houtcome, sessionId, hnamed, by rwa [h.isAccepted] at haccepted⟩

end Hears

section Stages

variable {P : Primitives} {answers : Answers} {event : Json} {expected : Option JsString} {attempt : Bool}
  {sessionId : JsString} {host after : AuditHost}

theorem Unaccused.refl : Unaccused event host host := ⟨[], Or.inl rfl, by simp⟩

theorem Unaccused.same (h : Unaccused event host after) {later : AuditHost}
    (hlater : later.anomalies = after.anomalies) : Unaccused event host later := by
  obtain ⟨gap, hgap, hadded⟩ := h
  exact ⟨gap, hgap, hlater.trans hadded⟩

theorem Unaccused.flag (h : Unaccused event host after) {later : AuditHost} {kind : Tier1Code} {detail : AnomalyDetail}
    (hlater : later.anomalies = after.anomalies ++ [⟨eventId event, kind, detail⟩]) : Accused event kind host later := by
  obtain ⟨gap, hgap, hadded⟩ := h
  exact ⟨gap, detail, hgap, by rw [hlater, hadded]⟩

theorem flag_accused (kind : Tier1Code) (detail : AnomalyDetail) :
    Accused event kind host (host.flag (eventId event) kind detail) := Unaccused.refl.flag rfl

theorem sessionOf_none (h : host.sessionOf P event expected = (after, .ok none)) :
    (RefusalCause.foreignSession).Holds P answers host event expected attempt ∧
      Accused event .replayDetected host after := by
  unfold AuditHost.sessionOf at h
  dsimp only at h
  split at h
  · rename_i id hopen
    split at h
    · simp at h
    · rename_i hcarried
      obtain ⟨rfl, -⟩ := Prod.mk.inj h
      refine ⟨fun sessionId hnamed => Or.inr ?_, flag_accused _ _⟩
      rw [hnamed] at hopen
      by_cases hhas : host.sessions.has sessionId = true
      · obtain rfl : sessionId = id := by simpa [hhas] using hopen
        exact not_or.mp hcarried
      · simp [hhas] at hopen
  · rename_i hopen
    split at h
    · simp at h
    · obtain ⟨rfl, -⟩ := Prod.mk.inj h
      refine ⟨fun sessionId hnamed => Or.inl ?_, flag_accused _ _⟩
      rw [hnamed] at hopen
      by_cases hhas : host.sessions.has sessionId = true
      · simp [hhas] at hopen
      · simpa using hhas

-- The structure and the session: what is not admitted is recorded once.
theorem admitEvent_rejected {reason : RejectReason}
    (h : host.admitEvent P event expected attempt = (after, .ok (.rejected reason))) :
    ∃ cause : RefusalCause, cause.Holds P answers host event expected attempt ∧ cause.reason = some reason ∧
      (∀ own, cause ≠ .unverified own) ∧ Accused event cause.kind host after := by
  unfold AuditHost.admitEvent at h
  split at h
  · rename_i error hvalid
    split at h
    · simp at h
    · simp only [Prod.mk.injEq, Except.ok.injEq, AuditHost.Admission.rejected.injEq] at h
      obtain ⟨rfl, rfl⟩ := h
      exact ⟨.malformed, Or.inl (by simp [hvalid]), rfl, by simp, flag_accused _ _⟩
  · split at h
    · rename_i hunsafe
      simp only [Prod.mk.injEq, Except.ok.injEq, AuditHost.Admission.rejected.injEq] at h
      obtain ⟨rfl, rfl⟩ := h
      exact ⟨.malformed, Or.inr (Or.inl hunsafe), rfl, by simp, flag_accused _ _⟩
    · split at h
      · rename_i hkind
        simp only [Prod.mk.injEq, Except.ok.injEq, AuditHost.Admission.rejected.injEq] at h
        obtain ⟨rfl, rfl⟩ := h
        exact ⟨.malformed, Or.inr (Or.inr hkind), rfl, by simp, flag_accused _ _⟩
      · split at h
        · simp at h
        · simp at h
        · rename_i hnone
          simp only [Prod.mk.injEq, Except.ok.injEq, AuditHost.Admission.rejected.injEq] at h
          obtain ⟨rfl, rfl⟩ := h
          have hforeign : (RefusalCause.foreignSession).Holds P answers host event expected attempt ∧
              Accused event .replayDetected host _ := sessionOf_none hnone
          exact ⟨.foreignSession, hforeign.1, rfl, by simp, hforeign.2⟩

theorem receive_unaccused (keyId : JsString) (signerSeq : JsNum) :
    Unaccused event host (host.receive P event sessionId keyId signerSeq) := by
  have hflagged : Unaccused event host (host.gapFlagged P event (host.receivedNumber sessionId keyId) signerSeq) := by
    unfold AuditHost.gapFlagged
    split
    · exact ⟨_, Or.inr ⟨_, rfl⟩, rfl⟩
    · exact .refl
  unfold AuditHost.receive
  dsimp only
  split
  · exact hflagged.same (modifySession_anomalies _ _ _)
  · exact hflagged

theorem verifySignature_none (h : host.verifySignature P answers event sessionId = (after, .ok none)) :
    Unaccused event host after ∧ Hears host after := by
  unfold AuditHost.verifySignature at h
  split at h
  · obtain ⟨rfl, -⟩ := Prod.mk.inj h
    exact ⟨.refl, .of_sessions_eq rfl rfl rfl⟩
  · split at h
    · simp at h
    · split at h
      · simp at h
      · simp at h
      · obtain ⟨rfl, -⟩ := Prod.mk.inj h
        exact ⟨receive_unaccused _ _, .receive P host event sessionId _ _⟩

theorem verifySignature_some {reason : RejectReason}
    (h : host.verifySignature P answers event sessionId = (after, .ok (some reason))) :
    ∃ cause : RefusalCause, cause.Holds P answers host event expected attempt ∧ cause.reason = some reason ∧
      (∀ own, cause = .unverified own → answers.verdict = .ok (some own)) ∧ Accused event cause.kind host after := by
  unfold AuditHost.verifySignature at h
  split at h
  · simp at h
  · rename_i hlevel
    have hlevel : host.config.capability.level = .L2 := not_not.mp hlevel
    split at h
    · rename_i hfields
      simp only [Prod.mk.injEq, Except.ok.injEq, Option.some.injEq] at h
      obtain ⟨rfl, rfl⟩ := h
      exact ⟨.unsigned, ⟨hlevel, hfields⟩, rfl, by simp, flag_accused _ _⟩
    · split at h
      · simp at h
      · rename_i own hverdict
        simp only [Prod.mk.injEq, Except.ok.injEq, Option.some.injEq] at h
        obtain ⟨rfl, rfl⟩ := h
        refine ⟨.unverified own, ⟨hlevel, hverdict⟩, rfl, fun other ho => ?_, flag_accused _ _⟩
        rw [hverdict, RefusalCause.unverified.inj ho]
      · simp at h

theorem checkReplay_some {reason : RejectReason} (hnamed : event.get Fields.SESSION_ID = some (.str sessionId))
    (h : host.checkReplay P event sessionId = (after, some reason)) :
    (RefusalCause.decidedNumber).Holds P answers host event expected attempt ∧ reason = .replayDetected ∧
      ∃ detail, after.anomalies = host.anomalies ++ [⟨eventId event, .replayDetected, detail⟩] := by
  unfold AuditHost.checkReplay at h
  split at h
  · rename_i keyId signerSeq session hnumber hsession
    split at h
    · rename_i hmem
      simp only [Prod.mk.injEq, Option.some.injEq] at h
      obtain ⟨rfl, rfl⟩ := h
      exact ⟨⟨sessionId, keyId, signerSeq, hnamed, hnumber, session, hsession, hmem⟩, rfl, _, rfl⟩
    · simp at h
  · simp at h

end Stages

section Decisions

variable {P : Primitives} {answers : Answers} {event : Json} {expected : Option JsString} {sessionId : JsString}
  {w after : World}

-- A refusal of the decision itself adds one anomaly, and stores nothing.
structure Refuses (P : Primitives) (answers : Answers) (event : Json) (expected : Option JsString) (attempt : Bool)
    (w after : World) (cause : RefusalCause) : Prop where
  holds : cause.Holds P answers w.host event expected attempt
  decides : ∀ own, cause ≠ .unverified own
  flagged : ∃ detail, after.host.anomalies = w.host.anomalies ++ [⟨eventId event, cause.kind, detail⟩]
  stored : after.stored = w.stored

theorem refuseAttempt_refuses {cause : RefusalCause} (detail : JsString)
    (hholds : cause.Holds P answers w.host event expected true) (hreplay : cause.kind = .replayDetected) :
    Refuses P answers event expected true w (w.withHost (w.host.refuseAttempt event sessionId detail)) cause where
  holds := hholds
  decides := by
    rintro own rfl
    cases hreplay
  flagged := ⟨.text detail, by simp [AuditHost.refuseAttempt, hreplay]⟩
  stored := rfl

theorem sealAttempt_records {response : AttemptResponse}
    (h : sealAttempt P answers event sessionId w = (after, .ok response)) :
    (∀ reason, response ≠ .reject reason) ∧ after.host.anomalies = w.host.anomalies := by
  have hsealed := @sealEvent_anomalies P answers event w
  unfold sealAttempt at h
  split at h
  · simp at h
  · rename_i settled hs
    simp only [Prod.mk.injEq, Except.ok.injEq] at h
    obtain ⟨rfl, rfl⟩ := h
    rw [hs] at hsealed
    exact ⟨by simp, hsealed⟩
  · rename_i settled record hs
    simp only [Prod.mk.injEq, Except.ok.injEq] at h
    obtain ⟨rfl, rfl⟩ := h
    rw [hs] at hsealed
    obtain ⟨accepted, haccepts⟩ := acceptOf_eq record
    exact ⟨by simp [haccepts], by simpa using hsealed⟩

-- Once its signature verified, an attempt is refused as a replay or not at all.
theorem decideAttempt_records {response : AttemptResponse} (hnamed : event.get Fields.SESSION_ID = some (.str sessionId))
    (h : decideAttempt P answers event sessionId w = (after, .ok response)) :
    (∃ cause, response = .reject .replayDetected ∧ cause.reason = some .replayDetected ∧
      Refuses P answers event expected true w after cause) ∨
    (∀ reason, response ≠ .reject reason) ∧ after.host.anomalies = w.host.anomalies := by
  unfold decideAttempt at h
  split at h
  · rename_i record hrecord
    split at h
    · simp at h
    · simp only [Prod.mk.injEq, Except.ok.injEq] at h
      obtain ⟨rfl, rfl⟩ := h
      obtain ⟨accepted, haccepts⟩ := acceptOf_eq record
      exact Or.inr ⟨by simp [haccepts], by simp⟩
    · rename_i hdiffers
      simp only [Prod.mk.injEq, Except.ok.injEq] at h
      obtain ⟨rfl, rfl⟩ := h
      exact Or.inl ⟨.sealedDifferently, rfl, rfl, refuseAttempt_refuses _ ⟨rfl, record, hrecord, hdiffers⟩ rfl⟩
  · split at h
    · rename_i hterminal
      simp only [Prod.mk.injEq, Except.ok.injEq] at h
      obtain ⟨rfl, rfl⟩ := h
      obtain ⟨terminal, hterminal⟩ := Option.isSome_iff_exists.mp hterminal
      exact Or.inl ⟨.concluded, rfl, rfl,
        refuseAttempt_refuses _ ⟨sessionId, terminal, hnamed, hterminal, Or.inl rfl⟩ rfl⟩
    · split at h
      · rename_i checked reason hreplay
        simp only [Prod.mk.injEq, Except.ok.injEq] at h
        obtain ⟨rfl, rfl⟩ := h
        obtain ⟨hholds, rfl, detail, hflagged⟩ := checkReplay_some hnamed hreplay
        exact Or.inl ⟨.decidedNumber, rfl, rfl, hholds, by simp, ⟨detail, by simpa [RefusalCause.kind] using hflagged⟩, rfl⟩
      · split at h
        · simp only [Prod.mk.injEq, Except.ok.injEq] at h
          obtain ⟨rfl, rfl⟩ := h
          exact Or.inr ⟨by simp, rfl⟩
        · exact Or.inr (sealAttempt_records h)

theorem sealOutcome_records {digest : JsString} {disposition : OutcomeDisposition}
    (h : sealOutcome P answers event sessionId digest w = (after, .ok disposition)) :
    disposition ≠ .refused ∧ after.host.anomalies = w.host.anomalies := by
  have hsealed := @sealEvent_anomalies P answers event w
  unfold sealOutcome at h
  split at h
  · simp only [Prod.mk.injEq, Except.ok.injEq] at h
    obtain ⟨rfl, rfl⟩ := h
    exact ⟨by simp, rfl⟩
  · split at h
    · simp at h
    · rename_i settled hs
      simp only [Prod.mk.injEq, Except.ok.injEq] at h
      obtain ⟨rfl, rfl⟩ := h
      rw [hs] at hsealed
      exact ⟨by simp, hsealed⟩
    · rename_i settled record hs
      simp only [Prod.mk.injEq, Except.ok.injEq] at h
      obtain ⟨rfl, rfl⟩ := h
      rw [hs] at hsealed
      exact ⟨by simp, by simpa using hsealed⟩

-- An outcome is refused as a replay, or as the orphan of no accepted attempt.
theorem decideOutcome_records {disposition : OutcomeDisposition}
    (hnamed : event.get Fields.SESSION_ID = some (.str sessionId))
    (h : decideOutcome P answers event sessionId w = (after, .ok disposition)) :
    (disposition = .refused ∧ ∃ cause, Refuses P answers event expected false w after cause) ∨
    disposition ≠ .refused ∧ after.host.anomalies = w.host.anomalies := by
  unfold decideOutcome at h
  split at h
  · simp at h
  · rename_i digest hdigest
    dsimp only at h
    split at h
    · simp only [Prod.mk.injEq, Except.ok.injEq] at h
      obtain ⟨rfl, rfl⟩ := h
      exact Or.inr ⟨by simp, rfl⟩
    · rename_i hnew
      split at h
      · rename_i hterminal
        simp only [Prod.mk.injEq, Except.ok.injEq] at h
        obtain ⟨rfl, rfl⟩ := h
        obtain ⟨terminal, hterminal⟩ := Option.isSome_iff_exists.mp hterminal
        have hdiffers : digestOf P event ≠ .ok terminal := by
          rw [hdigest]
          intro hsame
          obtain rfl := Except.ok.inj hsame
          exact hnew (Or.inr hterminal)
        exact Or.inl ⟨rfl, .concluded, ⟨sessionId, terminal, hnamed, hterminal, Or.inr hdiffers⟩, by simp,
          ⟨_, by rw [flag_anomalies, decide_anomalies]; rfl⟩, rfl⟩
      · split at h
        · rename_i checked reason hreplay
          simp only [Prod.mk.injEq, Except.ok.injEq] at h
          obtain ⟨rfl, rfl⟩ := h
          obtain ⟨hholds, -, hflagged⟩ := checkReplay_some hnamed hreplay
          exact Or.inl ⟨rfl, .decidedNumber, hholds, by simp, hflagged, rfl⟩
        · split at h
          · rename_i huncorrelated
            split at h
            · simp at h
            · simp only [Prod.mk.injEq, Except.ok.injEq] at h
              obtain ⟨rfl, rfl⟩ := h
              simp only [Bool.and_eq_true, Bool.not_eq_true'] at huncorrelated
              exact Or.inl ⟨rfl, .orphaned, ⟨rfl, huncorrelated.2, sessionId, hnamed, huncorrelated.1⟩, by simp,
                ⟨_, by rw [flag_anomalies, decide_anomalies]; rfl⟩, rfl⟩
          · exact Or.inr (sealOutcome_records h)

end Decisions

section Calls

variable {P : Primitives} {answers : Answers} {event : Json} {expected : Option JsString} {w after : World}

-- One refusal with its cause: what was recorded for it, and a repository left as it was.
structure RefusedFor (P : Primitives) (answers : Answers) (event : Json) (expected : Option JsString) (attempt : Bool)
    (w after : World) (cause : RefusalCause) : Prop where
  holds : cause.Holds P answers (chainKnown P answers w).1.host event expected attempt
  flagged : Accused event cause.kind w.host after.host
  stored : after.stored = w.stored

-- What an answer to an attempt goes with.
def AttemptRecorded (P : Primitives) (answers : Answers) (event : Json) (expected : Option JsString) (w after : World) :
    AttemptResponse → Prop
  | .reject reason => ∃ cause, RefusedFor P answers event expected true w after cause ∧ cause.reason = some reason ∧
      (answers.VerdictDocumented → cause.kind = reason.anomalyKind)
  | _ => Unaccused event w.host after.host

-- What becomes of an outcome, and what that goes with.
def OutcomeRecorded (P : Primitives) (answers : Answers) (event : Json) (expected : Option JsString) (w after : World) :
    OutcomeDisposition → Prop
  | .refused => ∃ cause, RefusedFor P answers event expected false w after cause
  | _ => Unaccused event w.host after.host

theorem AttemptRecorded.of_not_reject {response : AttemptResponse} (h : ∀ reason, response ≠ .reject reason)
    (hunaccused : Unaccused event w.host after.host) : AttemptRecorded P answers event expected w after response := by
  cases response with
  | accept accepted => exact hunaccused
  | reject reason => exact absurd rfl (h reason)
  | unavailable => exact hunaccused

theorem OutcomeRecorded.of_not_refused {disposition : OutcomeDisposition} (h : disposition ≠ .refused)
    (hunaccused : Unaccused event w.host after.host) : OutcomeRecorded P answers event expected w after disposition := by
  cases disposition with
  | refused => exact absurd rfl h
  | _ => exact hunaccused

-- A refusal of the decision, seen from before the event was heard.
theorem Refuses.refusedFor {attempt : Bool} {cause : RefusalCause} {heard : AuditHost}
    (h : Refuses P answers event expected attempt ((chainKnown P answers w).1.withHost heard) after cause)
    (hheard : Hears (chainKnown P answers w).1.host heard) (hunaccused : Unaccused event w.host heard) :
    RefusedFor P answers event expected attempt w after cause where
  holds := hheard.holds h.holds
  flagged := by
    obtain ⟨detail, hflagged⟩ := h.flagged
    exact hunaccused.flag hflagged
  stored := h.stored.trans chainKnown_quiet.2

-- Settling the tail adds nothing to what is recorded.
theorem Unaccused.settled {host : AuditHost} (h : Unaccused event (chainKnown P answers w).1.host host) :
    Unaccused event w.host host := by
  obtain ⟨gap, hgap, hadded⟩ := h
  exact ⟨gap, hgap, by rw [hadded, chainKnown_quiet.1]⟩

theorem Accused.settled {kind : Tier1Code} {host : AuditHost} (h : Accused event kind (chainKnown P answers w).1.host host) :
    Accused event kind w.host host := by
  obtain ⟨gap, detail, hgap, hadded⟩ := h
  exact ⟨gap, detail, hgap, by rw [hadded, chainKnown_quiet.1]⟩

theorem handleAttempt_records {expired : Bool} {response : AttemptResponse}
    (h : handleAttempt P answers event expected expired w = (after, .ok response)) :
    AttemptRecorded P answers event expected w after response := by
  have hstored := (@chainKnown_quiet P answers w).2
  unfold handleAttempt at h
  split at h
  · simp only [Prod.mk.injEq, Except.ok.injEq] at h
    obtain ⟨rfl, rfl⟩ := h
    exact Unaccused.refl
  · split at h
    · simp at h
    · rename_i settled hsettled
      simp only [Prod.mk.injEq, Except.ok.injEq] at h
      obtain ⟨rfl, rfl⟩ := h
      apply Unaccused.settled (P := P)
      rw [hsettled]
      exact .refl
    · rename_i settled hsettled
      obtain rfl : settled = (chainKnown P answers w).1 := by rw [hsettled]
      unfold judgeAttempt at h
      split at h
      · simp at h
      · rename_i host reason hadmitted
        simp only [Prod.mk.injEq, Except.ok.injEq] at h
        obtain ⟨rfl, rfl⟩ := h
        obtain ⟨cause, hholds, hreason, hown, haccused⟩ := admitEvent_rejected hadmitted
        exact ⟨cause, ⟨hholds, haccused.settled, hstored⟩, hreason,
          fun _ => cause.kind_eq hreason fun own ho => absurd ho (hown own)⟩
      · rename_i host sessionId hadmitted
        obtain ⟨rfl, hadmits⟩ := AuditHost.admitEvent_session hadmitted
        split at h
        · simp at h
        · rename_i host reason hverified
          simp only [Prod.mk.injEq, Except.ok.injEq] at h
          obtain ⟨rfl, rfl⟩ := h
          obtain ⟨cause, hholds, hreason, hown, haccused⟩ := verifySignature_some hverified
          exact ⟨cause, ⟨hholds, haccused.settled, hstored⟩, hreason,
            fun hdocumented => cause.kind_eq hreason fun own ho => hdocumented own (hown own ho)⟩
        · rename_i host hverified
          obtain ⟨hunaccused, hheard⟩ := verifySignature_none hverified
          rcases decideAttempt_records hadmits.named h with ⟨cause, rfl, hreason, hrefuses⟩ | ⟨hnot, hsame⟩
          · exact ⟨cause, hrefuses.refusedFor hheard hunaccused.settled, hreason,
              fun _ => cause.kind_eq hreason fun own ho => absurd ho (hrefuses.decides own)⟩
          · exact .of_not_reject hnot (hunaccused.settled.same hsame)

theorem eventId_of_not_object (h : event.isObject = false) : eventId event = "<unknown>" := by
  cases event with
  | obj members => cases h
  | _ => rfl

theorem recordOutcome_records {disposition : OutcomeDisposition}
    (h : recordOutcome P answers event expected w = (after, .ok disposition)) :
    OutcomeRecorded P answers event expected w after disposition := by
  have hstored := (@chainKnown_quiet P answers w).2
  unfold recordOutcome at h
  split at h
  · rename_i hobject
    have hobject : event.isObject = false := by simpa using hobject
    simp only [Prod.mk.injEq, Except.ok.injEq] at h
    obtain ⟨rfl, rfl⟩ := h
    refine ⟨.notObject, ⟨hobject, rfl⟩, ?_, rfl⟩
    rw [← eventId_of_not_object hobject]
    exact flag_accused _ _
  · split at h
    · simp at h
    · rename_i settled hsettled
      simp only [Prod.mk.injEq, Except.ok.injEq] at h
      obtain ⟨rfl, rfl⟩ := h
      apply Unaccused.settled (P := P)
      rw [hsettled]
      exact .refl
    · rename_i settled hsettled
      obtain rfl : settled = (chainKnown P answers w).1 := by rw [hsettled]
      unfold judgeOutcome at h
      split at h
      · simp at h
      · rename_i host reason hadmitted
        simp only [Prod.mk.injEq, Except.ok.injEq] at h
        obtain ⟨rfl, rfl⟩ := h
        obtain ⟨cause, hholds, -, -, haccused⟩ := admitEvent_rejected hadmitted
        exact ⟨cause, hholds, haccused.settled, hstored⟩
      · rename_i host sessionId hadmitted
        obtain ⟨rfl, hadmits⟩ := AuditHost.admitEvent_session hadmitted
        split at h
        · simp at h
        · rename_i host reason hverified
          simp only [Prod.mk.injEq, Except.ok.injEq] at h
          obtain ⟨rfl, rfl⟩ := h
          obtain ⟨cause, hholds, -, -, haccused⟩ := verifySignature_some hverified
          exact ⟨cause, hholds, haccused.settled, hstored⟩
        · rename_i host hverified
          obtain ⟨hunaccused, hheard⟩ := verifySignature_none hverified
          rcases decideOutcome_records hadmits.named h with ⟨rfl, cause, hrefuses⟩ | ⟨hnot, hsame⟩
          · exact ⟨cause, hrefuses.refusedFor hheard hunaccused.settled⟩
          · exact .of_not_refused hnot (hunaccused.settled.same hsame)

end Calls

-- A refusal is recorded once, under its event's id and as the kind of its cause, and
-- no other answer accuses.
theorem refusals_recorded (P : Primitives) (answers : Answers) (event : Json) (expected : Option JsString) (w after : World) :
    (∀ expired response, handleAttempt P answers event expected expired w = (after, .ok response) →
      AttemptRecorded P answers event expected w after response) ∧
    ∀ disposition, recordOutcome P answers event expected w = (after, .ok disposition) →
      OutcomeRecorded P answers event expected w after disposition :=
  ⟨fun _ _ h => handleAttempt_records h, fun _ h => recordOutcome_records h⟩

end AuditableMcp
