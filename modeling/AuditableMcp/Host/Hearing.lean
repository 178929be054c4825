import AuditableMcp.Host.Books
import AuditableMcp.Host.Unavailable

-- What a call makes of an event whose signature verified.
namespace AuditableMcp

-- The anomaly a call recorded for an event.
def Records (before after : AuditHost) (id : JsString) (kind : Tier1Code) : Prop :=
  ∃ detail, ⟨id, kind, detail⟩ ∈ after.anomalies.drop before.anomalies.length

-- The highest numbers received stay, and anomalies are at most added.
structure Unheard (before after : AuditHost) : Prop where
  received : ∀ sessionId keyId, after.receivedNumber sessionId keyId = before.receivedNumber sessionId keyId
  anomalies : before.anomalies <+: after.anomalies

namespace Unheard

variable {a b c : AuditHost}

theorem refl (host : AuditHost) : Unheard host host := ⟨fun _ _ => rfl, List.prefix_rfl⟩

theorem trans (hab : Unheard a b) (hbc : Unheard b c) : Unheard a c :=
  ⟨fun sessionId keyId => by rw [hbc.received, hab.received], hab.anomalies.trans hbc.anomalies⟩

theorem of_sessions_eq (hsessions : b.sessions = a.sessions) (hanomalies : b.anomalies = a.anomalies) :
    Unheard a b := by
  refine ⟨fun sessionId keyId => ?_, hanomalies ▸ List.prefix_rfl⟩
  unfold AuditHost.receivedNumber
  rw [hsessions]

theorem flag (host : AuditHost) (id : JsString) (kind : Tier1Code) (detail : AnomalyDetail) :
    Unheard host (host.flag id kind detail) := ⟨fun _ _ => rfl, List.prefix_append _ _⟩

theorem rejectId (host : AuditHost) (id : JsString) : Unheard host (host.rejectId id) := of_sessions_eq rfl rfl

-- Whatever a change of a session does, it leaves the numbers received alone.
theorem modifySession (host : AuditHost) (sessionId : JsString) {change : Session → Session}
    (h : ∀ session, (change session).received = session.received) : Unheard host (host.modifySession sessionId change) := by
  obtain ⟨sessions, hs⟩ := host.modifySession_fields sessionId change
  refine ⟨fun other keyId => ?_, hs ▸ List.prefix_rfl⟩
  unfold AuditHost.receivedNumber
  rw [AuditHost.get_modifySession]
  by_cases ho : sessionId = other
  · subst ho
    rw [if_pos rfl]
    cases host.sessions.get sessionId with
    | none => rfl
    | some session => exact congrArg (fun received => received.get keyId) (h session)
  · rw [if_neg ho]

theorem acceptId (host : AuditHost) (sessionId id : JsString) : Unheard host (host.acceptId sessionId id) :=
  modifySession host sessionId fun _ => rfl

theorem setTerminal (host : AuditHost) (sessionId id digest : JsString) :
    Unheard host (host.setTerminal sessionId id digest) := modifySession host sessionId fun _ => rfl

theorem decide (host : AuditHost) (event : Json) (sessionId : JsString) : Unheard host (host.decide event sessionId) := by
  unfold AuditHost.decide
  split
  · exact modifySession host sessionId fun _ => rfl
  · exact refl host

theorem checkReplay (P : Primitives) (host : AuditHost) (event : Json) (sessionId : JsString) :
    Unheard host (host.checkReplay P event sessionId).1 := by
  unfold AuditHost.checkReplay
  split
  · split
    · exact flag host _ _ _
    · exact refl host
  · exact refl host

theorem refuseAttempt (host : AuditHost) (event : Json) (sessionId detail : JsString) :
    Unheard host (host.refuseAttempt event sessionId detail) :=
  ((rejectId host _).trans (decide _ event sessionId)).trans (flag _ _ _ _)

theorem committing (host : AuditHost) (record : SealedRecord) (digest : JsString) :
    Unheard host (host.committing record digest) := by
  refine of_sessions_eq (committing_fields host record digest).2.2.2.1 ?_
  unfold AuditHost.committing AuditHost.noteSealed
  split <;> rfl

theorem settles {P : Primitives} {w w' : World} {adopted : Option SealedRecord} (h : Settles P w adopted w') :
    Unheard w.host w'.host := by
  cases h with
  | kept => exact refl w.host
  | confirmed => exact of_sessions_eq rfl rfl
  | adopted record digest sessionId =>
      have haccept : Unheard w.host (if isAttempted record.event
          then (w.host.committing record digest).acceptId sessionId (eventId record.event)
          else w.host.committing record digest) := by
        split
        · exact (committing w.host record digest).trans (acceptId _ _ _)
        · exact committing w.host record digest
      exact haccept.trans (of_sessions_eq rfl rfl)

theorem sessionOf (P : Primitives) (host : AuditHost) (event : Json) (expected : Option JsString) :
    Unheard host (host.sessionOf P event expected).1 := by
  unfold AuditHost.sessionOf
  dsimp only
  split
  · split
    · exact refl host
    · exact flag host _ _ _
  · split
    · exact refl host
    · exact flag host _ _ _

theorem admitEvent (P : Primitives) (host : AuditHost) (event : Json) (expected : Option JsString) (attempt : Bool) :
    Unheard host (host.admitEvent P event expected attempt).1 := by
  have hsession := sessionOf P host event expected
  unfold AuditHost.admitEvent
  split
  · split
    · exact refl host
    · exact flag host _ _ _
  · split
    · exact flag host _ _ _
    · split
      · exact flag host _ _ _
      · split
        · rename_i h
          rwa [h] at hsession
        · rename_i h
          rwa [h] at hsession
        · rename_i h
          rwa [h] at hsession

end Unheard

theorem Records.later {a b c : AuditHost} {id : JsString} {kind : Tier1Code} (h : Records a b id kind)
    (hab : a.anomalies <+: b.anomalies) (hbc : b.anomalies <+: c.anomalies) : Records a c id kind := by
  obtain ⟨detail, hmem⟩ := h
  obtain ⟨first, hfirst⟩ := hab
  obtain ⟨second, hsecond⟩ := hbc
  refine ⟨detail, ?_⟩
  rw [← hfirst, List.drop_left] at hmem
  rw [← hsecond, ← hfirst, List.append_assoc, List.drop_left]
  exact List.mem_append_left _ hmem

theorem Records.flag {a b : AuditHost} (hab : a.anomalies <+: b.anomalies) (id : JsString) (kind : Tier1Code)
    (detail : AnomalyDetail) : Records a (b.flag id kind detail) id kind := by
  obtain ⟨new, hnew⟩ := hab
  refine ⟨detail, ?_⟩
  show _ ∈ (b.anomalies ++ [_]).drop _
  rw [← hnew, List.append_assoc, List.drop_left]
  simp

theorem Records.earlier {a b c : AuditHost} {id : JsString} {kind : Tier1Code} (hab : a.anomalies <+: b.anomalies)
    (h : Records b c id kind) (hbc : b.anomalies <+: c.anomalies) : Records a c id kind := by
  obtain ⟨detail, hmem⟩ := h
  obtain ⟨first, hfirst⟩ := hab
  obtain ⟨second, hsecond⟩ := hbc
  refine ⟨detail, ?_⟩
  rw [← hsecond, List.drop_left] at hmem
  rw [← hsecond, ← hfirst, List.append_assoc, List.drop_left]
  exact List.mem_append_right _ hmem

-- A countersigned payload has a canonical form only under a well-formed log id.
def Signable (config : HostConfig) : Prop := config.countersigner.isSome = true → LONE_SURROGATE config.logId = false

-- What a host needs to put together its next record.
structure Sealable (answers : Answers) (w : World) : Prop where
  signable : Signable w.host.config
  clock : LONE_SURROGATE answers.now = false
  count : (w.chain.length : ℚ) ≤ MAX_SAFE_INTEGER

-- The chain stays, or takes up the event.
def Grows (event : Json) (before after : World) : Prop :=
  after.chain = before.chain ∨
    Signable before.host.config ∧ ∃ record, record.event = event ∧ after.chain = before.chain ++ [record]

def Reply.refused : Reply → Bool
  | .attempt (.reject _) => true
  | .outcome .refused => true
  | _ => false

-- A sealed event under the session and number of this one.
def SealedAs (records : List SealedRecord) (event : Json) : Prop :=
  ∃ record ∈ records, record.event.get Fields.SESSION_ID = event.get Fields.SESSION_ID ∧
    numberOf record.event = numberOf event

section Seals

variable {P : Primitives} {answers : Answers} {event : Json} {w after : World} {committed pending : List SealedRecord}

theorem tailHashOf_wellFormed {records : List SealedRecord} (h : IsChain P records) :
    LONE_SURROGATE (tailHashOf records) = false := by
  cases records using List.reverseRecOn with
  | nil => decide
  | append_singleton init record =>
      obtain ⟨-, -, -, hlink⟩ := (isChain_append_singleton P init record).mp h
      obtain ⟨text, -, hhash⟩ := bind_ok (linkHash_eq_some.mp hlink)
      rw [tailHashOf_append_singleton, ← pure_ok hhash]
      exact sha256Hex_wellFormed P text

-- With its chain known, a host that can put a record together does.
theorem prepare_isOk (hsound : Sound P w committed pending) (hadm : Admissible event) (h : Sealable answers w) :
    ∃ prepared, prepare P answers event w.host = .ok prepared := by
  have hcount : (w.host.ledger.count : ℚ) ≤ MAX_SAFE_INTEGER := by
    have hle : committed.length ≤ w.chain.length := by rw [hsound.chain, List.length_append]; omega
    rw [hsound.count]
    exact le_trans (by exact_mod_cast hle) h.count
  have htail : LONE_SURROGATE w.host.ledger.tailHash = false := by
    have hlinked := hsound.soundChain.linked
    rw [hsound.chain] at hlinked
    rw [hsound.tailHash]
    rcases hsound.doubt with rfl | ⟨record, rfl, -⟩
    · exact tailHashOf_wellFormed (by rwa [List.append_nil] at hlinked)
    · exact tailHashOf_wellFormed ((isChain_append_singleton P committed record).mp hlinked).1
  have hpreimage : Canonicalizable (recordPreimage (some event) (some (.num (.ofNat w.host.ledger.count)))
      (some (.str answers.now)) (some (.str w.host.ledger.tailHash))) := by
    apply objectOf_canonicalizable
    simp only [List.forall_mem_cons, List.not_mem_nil, false_imp_iff, implies_true, and_true, Option.some.injEq,
      forall_eq']
    exact ⟨⟨by decide, hadm.canonicalizable⟩, ⟨by decide, canonicalizable_str h.clock⟩,
      ⟨by decide, canonicalizable_str htail⟩, by decide, canonicalizable_count hcount⟩
  unfold prepare Ledger.sealRecord computeRecordHash
  rw [canonicalize_of_canonicalizable P hpreimage]
  simp only [bind, Except.bind, pure, Except.pure]
  cases hsigner : w.host.config.countersigner with
  | none => exact ⟨_, rfl⟩
  | some keyId =>
      have hpayload : Canonicalizable (objectOf [("host_ts", some (.str answers.now)),
          ("log_id", some (.str w.host.config.logId)), ("previous_hash", some (.str w.host.ledger.tailHash)),
          ("record_hash", some (.str (sha256Hex P (P.jcsCanonicalize (recordPreimage (some event)
            (some (.num (.ofNat w.host.ledger.count))) (some (.str answers.now))
            (some (.str w.host.ledger.tailHash))))))), ("seq", some (.num (.ofNat w.host.ledger.count)))]) := by
        apply objectOf_canonicalizable
        simp only [List.forall_mem_cons, List.not_mem_nil, false_imp_iff, implies_true, and_true, Option.some.injEq,
          forall_eq']
        exact ⟨⟨by decide, canonicalizable_str h.clock⟩,
          ⟨by decide, canonicalizable_str (h.signable (by simp [hsigner]))⟩, ⟨by decide, canonicalizable_str htail⟩,
          ⟨by decide, canonicalizable_str (sha256Hex_wellFormed P _)⟩, by decide, canonicalizable_count hcount⟩
      unfold countersignaturePayload
      simp only [Ledger.recordOf, canonicalize_of_canonicalizable P hpayload, bind, Except.bind, pure, Except.pure]
      cases answers.sign with
      | error e => exact ⟨none, rfl⟩
      | ok signature => exact ⟨_, rfl⟩

-- A record is put together only where it can be countersigned, if it is to be.
theorem prepare_signable {record : SealedRecord} (h : prepare P answers event w.host = .ok (some record)) :
    Signable w.host.config := by
  intro hsigner
  obtain ⟨keyId, hkey⟩ := Option.isSome_iff_exists.mp hsigner
  unfold prepare at h
  rw [hkey] at h
  obtain ⟨base, -, h⟩ := bind_ok h
  obtain ⟨payload, hpayload, -⟩ := bind_ok h
  obtain ⟨text, htext, -⟩ := bind_ok hpayload
  have hwhole := (canonicalizable_of_ok htext).1.2
  cases hts : base.host_ts <;>
    simp [hts, objectOf, hasLoneSurrogate, hasLoneSurrogate.members] at hwhole <;> tauto

theorem chain_withHost {host : AuditHost} (hconfig : host.config = w.host.config) (hledger : host.ledger = w.host.ledger) :
    World.chain (w.withHost host) = w.chain := by simp [World.chain, hconfig, hledger]

theorem Seals.unheard {adopted : Option SealedRecord} (h : Seals P event w after adopted) : Unheard w.host after.host := by
  cases h with
  | refused => exact .refl w.host
  | lost hrepo => exact .of_sessions_eq rfl rfl
  | landed record hrepo hcont => exact .of_sessions_eq rfl rfl
  | sealed record digest hcont hdigest => exact .committing w.host record digest

theorem Seals.grows {adopted : Option SealedRecord} (h : Seals P event w after adopted)
    (hsignable : Signable w.host.config) : Grows event w after := by
  cases h with
  | refused => exact Or.inl rfl
  | lost hrepo => exact Or.inl (chain_withHost rfl rfl)
  | landed record hrepo hcont =>
      refine Or.inr ⟨hsignable, record, hcont.carries, ?_⟩
      simp [World.chain, hrepo]
  | sealed record digest hcont hdigest =>
      obtain ⟨hconfig, hledger, -⟩ := committing_fields w.host record digest
      exact Or.inr ⟨hsignable, record, hcont.carries, Sound.chain_keeping hconfig hledger⟩

theorem Seals.sealedAs {record : SealedRecord} (h : Seals P event w after (some record)) :
    SealedAs after.chain event := by
  cases h with
  | sealed _ digest hcont hdigest =>
      obtain ⟨hconfig, hledger, -⟩ := committing_fields w.host record digest
      rw [Sound.chain_keeping hconfig hledger]
      exact ⟨record, by simp, by rw [hcont.carries], by rw [hcont.carries]⟩

-- What `#seal` makes of an event the host may seal. It throws only where no record can
-- be put together.
theorem sealEvent_cases (hadm : Admissible event) {result : Except JsError (Option SealedRecord)}
    (h : sealEvent P answers event w = (after, result)) :
    Unheard w.host after.host ∧ Grows event w after ∧
      ((∃ e, result = .error e ∧ ∃ e', prepare P answers event w.host = .error e') ∨ result = .ok none ∨
        ∃ record, result = .ok (some record) ∧ SealedAs after.chain event) := by
  cases hprepare : prepare P answers event w.host with
  | error e =>
      unfold sealEvent at h
      rw [hprepare] at h
      obtain ⟨rfl, rfl⟩ := Prod.mk.inj h
      exact ⟨.refl _, Or.inl rfl, Or.inl ⟨e, rfl, e, rfl⟩⟩
  | ok prepared =>
      cases prepared with
      | none =>
          unfold sealEvent at h
          rw [hprepare] at h
          obtain ⟨rfl, rfl⟩ := Prod.mk.inj h
          exact ⟨.refl _, Or.inl rfl, Or.inr (Or.inl rfl)⟩
      | some record =>
          have hsignable := prepare_signable hprepare
          rcases sealEvent_seals hadm h with ⟨e, rfl, rfl⟩ | ⟨adopted, rfl, hseals⟩
          · -- A record that was put together is persisted and remembered without an error.
            unfold sealEvent at h
            simp only [hprepare, AuditHost.remember, (prepare_some hprepare).carries, hadm.digestOf_ok P, bind,
              Except.bind, pure, Except.pure] at h
            split at h <;> simp at h
          · refine ⟨hseals.unheard, hseals.grows hsignable, Or.inr ?_⟩
            cases adopted with
            | none => exact Or.inl rfl
            | some sealedRecord => exact Or.inr ⟨sealedRecord, rfl, hseals.sealedAs⟩

end Seals

-- What the decision on an event comes to: a refusal that is recorded, no decision, a
-- sealed record, or a record that could not be put together.
structure Decided (P : Primitives) (answers : Answers) (event : Json) (before after : World) (reply : Reply) : Prop where
  unheard : Unheard before.host after.host
  grows : Grows event before after
  answered : (reply.refused = true ∧ ∃ kind, Records before.host after.host (eventId event) kind) ∨
    reply.undecided = true ∨ SealedAs after.chain event ∨ ∃ e, prepare P answers event before.host = .error e

section Decisions

variable {P : Primitives} {answers : Answers} {event : Json} {sessionId : JsString} {w : World}
  {committed pending : List SealedRecord}

theorem Grows.framed {after : World} {host : AuditHost} (h : Grows event w after) (hf : Framed after.host host) :
    Grows event w (after.withHost host) := by
  unfold Grows
  rw [chain_withHost hf.config hf.ledger]
  exact h

theorem grows_noted {host : AuditHost} (hnoted : Noted w.host host) : Grows event w (w.withHost host) :=
  (show Grows event w w from Or.inl rfl).framed hnoted.framed

theorem checkReplay_records {host after : AuditHost} {reason : RejectReason}
    (h : host.checkReplay P event sessionId = (after, some reason)) :
    Records host after (eventId event) .replayDetected := by
  unfold AuditHost.checkReplay at h
  split at h
  · split at h
    · rw [← (Prod.mk.inj h).1]
      exact .flag List.prefix_rfl _ _ _
    · simp at h
  · simp at h

theorem refuseAttempt_decided (detail : JsString) (reason : RejectReason) :
    Decided P answers event w (w.withHost (w.host.refuseAttempt event sessionId detail)) (.attempt (.reject reason)) where
  unheard := .refuseAttempt w.host event sessionId detail
  grows := grows_noted (.refuseAttempt w.host event sessionId detail)
  answered := Or.inl ⟨rfl, _, .flag ((Unheard.rejectId w.host _).trans (.decide _ event sessionId)).anomalies _ _ _⟩

theorem sealAttempt_decided (hadm : Admissible event) :
    Decided P answers event w (World.replying .attempt (sealAttempt P answers event sessionId w)).1
      (World.replying .attempt (sealAttempt P answers event sessionId w)).2 := by
  unfold sealAttempt
  cases hs : sealEvent P answers event w with
  | mk after result =>
      obtain ⟨hunheard, hgrows, ⟨e, rfl, hthrew⟩ | rfl | ⟨record, rfl, hsealed⟩⟩ := sealEvent_cases hadm hs
      · exact ⟨hunheard, hgrows, Or.inr (Or.inr (Or.inr hthrew))⟩
      · exact ⟨hunheard, hgrows, Or.inr (Or.inl rfl)⟩
      · have hframed := (Noted.decide after.host event sessionId).framed.trans
          (framed_acceptId (after.host.decide event sessionId) sessionId (eventId event))
        refine ⟨hunheard.trans ((Unheard.decide after.host event sessionId).trans (.acceptId _ _ _)),
          hgrows.framed hframed, Or.inr (Or.inr (Or.inl ?_))⟩
        rw [← chain_withHost hframed.config hframed.ledger] at hsealed
        exact hsealed

-- The record an attempt repeats carries its session and number.
theorem repeatedAttempt_sealedAs (hjcs : JcsFaithful P) (hsound : Sound P w committed pending) {id : JsString}
    {record : SealedRecord} (hrecord : w.host.sealedAttempts.get id = some record)
    (hsame : sameBytes P record.event event = .ok true) : SealedAs w.chain event := by
  obtain ⟨hmem, -, -⟩ := (hsound.tables.attempts _ record).mp hrecord
  have hmem : record ∈ w.chain := by rw [hsound.chain]; exact List.mem_append_left _ hmem
  have hcanon := canon_eq_of_canonicallyEqual hjcs (sameBytes_eq_true.mp hsame)
  obtain ⟨session, hsession⟩ := (hsound.soundChain.admissible record hmem).current.session
  exact ⟨record, hmem, by rw [hsession, Json.get_str_of_canon_eq hcanon _ _ hsession], numberOf_of_canon_eq hcanon⟩

theorem decideAttempt_decided (hjcs : JcsFaithful P) (hsound : Sound P w committed pending) (hadm : Admissible event) :
    Decided P answers event w (World.replying .attempt (decideAttempt P answers event sessionId w)).1
      (World.replying .attempt (decideAttempt P answers event sessionId w)).2 := by
  unfold decideAttempt
  split
  · rename_i record hrecord
    split
    · rename_i e hsame
      obtain ⟨hmem, -, -⟩ := (hsound.tables.attempts _ record).mp hrecord
      have hmem : record ∈ w.chain := by rw [hsound.chain]; exact List.mem_append_left _ hmem
      -- Both events have canonical forms.
      rw [sameBytes, canonicalize_of_canonicalizable P (hsound.soundChain.admissible record hmem).canonicalizable,
        canonicalize_of_canonicalizable P hadm.canonicalizable] at hsame
      cases hsame
    · rename_i hsame
      have hframed := framed_acceptId w.host sessionId (eventId event)
      have hchain := chain_withHost (w := w) hframed.config hframed.ledger
      have hsealed := repeatedAttempt_sealedAs hjcs hsound hrecord hsame
      rw [← hchain] at hsealed
      exact ⟨.acceptId w.host _ _, Or.inl hchain, Or.inr (Or.inr (Or.inl hsealed))⟩
    · exact refuseAttempt_decided _ _
  · split
    · exact refuseAttempt_decided _ _
    · split
      · rename_i host reason hreplay
        have hchecked := Unheard.checkReplay P w.host event sessionId
        have hnoted := Noted.checkReplay P w.host event sessionId
        rw [hreplay] at hchecked hnoted
        have hafter := (Unheard.rejectId host (eventId event)).trans (.decide _ event sessionId)
        refine ⟨hchecked.trans hafter, ?_, Or.inl ⟨rfl, .replayDetected, ?_⟩⟩
        · exact grows_noted (hnoted.trans ((Noted.rejectId host _).trans (.decide _ event sessionId)))
        · exact (checkReplay_records hreplay).later hchecked.anomalies hafter.anomalies
      · split
        · exact ⟨.refl _, Or.inl rfl, Or.inr (Or.inl rfl)⟩
        · exact sealAttempt_decided hadm

theorem sealOutcome_decided {digest : JsString} (hadm : Admissible event) :
    Decided P answers event w (World.replying .outcome (sealOutcome P answers event sessionId digest w)).1
      (World.replying .outcome (sealOutcome P answers event sessionId digest w)).2 := by
  unfold sealOutcome
  split
  · exact ⟨.refl _, Or.inl rfl, Or.inr (Or.inl rfl)⟩
  · cases hs : sealEvent P answers event w with
    | mk after result =>
        obtain ⟨hunheard, hgrows, ⟨e, rfl, hthrew⟩ | rfl | ⟨record, rfl, hsealed⟩⟩ := sealEvent_cases hadm hs
        · exact ⟨hunheard, hgrows, Or.inr (Or.inr (Or.inr hthrew))⟩
        · exact ⟨hunheard, hgrows, Or.inr (Or.inl rfl)⟩
        · have hframed := (Noted.decide after.host event sessionId).framed.trans
            (framed_setTerminal (after.host.decide event sessionId) sessionId (eventId event) digest)
          refine ⟨hunheard.trans ((Unheard.decide after.host event sessionId).trans (.setTerminal _ _ _ _)),
            hgrows.framed hframed, Or.inr (Or.inr (Or.inl ?_))⟩
          rw [← chain_withHost hframed.config hframed.ledger] at hsealed
          exact hsealed

-- Events with one digest have one canonical form.
def DigestsTell (P : Primitives) (events : List Json) : Prop :=
  ∀ first ∈ events, ∀ second ∈ events, ∀ digest, digestOf P first = .ok digest → digestOf P second = .ok digest →
    canonicalize P first = canonicalize P second

-- The digests by which a session knows its terminal records are those of sealed events.
def TerminalsSealed (P : Primitives) (_ : JsString) (session : Session) (records : List SealedRecord) : Prop :=
  ∀ id digest, session.terminal.get id = some digest → ∃ record ∈ records, digestOf P record.event = .ok digest

theorem terminalsSealed_kept (P : Primitives) : Bookkeeping P (TerminalsSealed P) where
  fresh := fun _ _ _ id digest h => by simp [Session.new] at h
  same := fun _ _ _ _ h hsame id digest hget => h id digest (by rwa [hsame.terminal] at hget)
  passed := by
    intro _ session records record h _ id digest hget
    obtain ⟨other, ho, hdigest⟩ := h id digest hget
    exact ⟨other, List.mem_append_left _ ho, hdigest⟩
  attempted := by
    intro _ session records record h _ _ id digest hget
    obtain ⟨other, ho, hdigest⟩ := h id digest hget
    exact ⟨other, List.mem_append_left _ ho, hdigest⟩
  repeated := fun _ _ _ _ h _ => h
  concluded := by
    intro _ session records record digest h _ _ hdigest id other hget
    simp only [OrderedMap.get_set] at hget
    split at hget
    · obtain rfl := Option.some.inj hget
      exact ⟨record, by simp, hdigest⟩
    · obtain ⟨earlier, ho, hother⟩ := h id other hget
      exact ⟨earlier, List.mem_append_left _ ho, hother⟩

theorem repeated_sealedAs (hjcs : JcsFaithful P) (hsound : Sound P w committed pending) (hadm : Admissible event)
    (hsession : ∃ s, event.get Fields.SESSION_ID = some (.str s)) {digest : JsString}
    (hdigest : digestOf P event = .ok digest)
    (htell : DigestsTell P (event :: committed.map SealedRecord.event))
    (hknown : ∃ record ∈ committed, digestOf P record.event = .ok digest) : SealedAs w.chain event := by
  obtain ⟨record, hr, hd⟩ := hknown
  have hmem : record ∈ w.chain := by rw [hsound.chain]; exact List.mem_append_left _ hr
  have hsame := htell record.event (List.mem_cons_of_mem _ (List.mem_map_of_mem hr)) event (List.mem_cons_self ..)
    digest hd hdigest
  have hcanon := (canonicalize_eq_iff hjcs (hsound.soundChain.admissible record hmem).canonicalizable
    hadm.canonicalizable).mp hsame
  obtain ⟨session, hs⟩ := hsession
  exact ⟨record, hmem, by rw [hs, Json.get_str_of_canon_eq hcanon.symm _ _ hs], numberOf_of_canon_eq hcanon⟩

-- An outcome the host takes for one it has sealed changes nothing.
structure Repeated (P : Primitives) (event : Json) (sessionId : JsString) (before after : World) (reply : Reply) : Prop where
  same : after = before
  reply : reply = .outcome .repeated
  known : ∃ digest, digestOf P event = .ok digest ∧
    (digest ∈ before.host.sealedDigests ∨
      (before.host.sessions.get sessionId).bind (fun session => session.terminal.get (eventId event)) = some digest)

theorem decideOutcome_cases (hadm : Admissible event) :
    Decided P answers event w (World.replying .outcome (decideOutcome P answers event sessionId w)).1
      (World.replying .outcome (decideOutcome P answers event sessionId w)).2 ∨
    Repeated P event sessionId w (World.replying .outcome (decideOutcome P answers event sessionId w)).1
      (World.replying .outcome (decideOutcome P answers event sessionId w)).2 := by
  obtain ⟨digest, hdigest⟩ : ∃ digest, digestOf P event = .ok digest := ⟨_, hadm.digestOf_ok P⟩
  unfold decideOutcome
  simp only [hdigest]
  split
  · rename_i hrepeat
    exact Or.inr ⟨rfl, rfl, digest, hdigest, hrepeat⟩
  · left
    split
    · have hnoted := (Noted.decide w.host event sessionId).trans (.flag _ (eventId event) .replayDetected
        (.text "differs from the outcome already sealed for this operation"))
      exact ⟨(Unheard.decide w.host event sessionId).trans (.flag _ _ _ _), grows_noted hnoted,
        Or.inl ⟨rfl, _, .flag (Unheard.decide w.host event sessionId).anomalies _ _ _⟩⟩
    · split
      · rename_i host reason hreplay
        have hchecked := Unheard.checkReplay P w.host event sessionId
        have hnoted := Noted.checkReplay P w.host event sessionId
        rw [hreplay] at hchecked hnoted
        exact ⟨hchecked, grows_noted hnoted, Or.inl ⟨rfl, _, checkReplay_records hreplay⟩⟩
      · split
        · obtain ⟨outcome, ho, -⟩ := hadm.current.outcome
          simp only [ho, stringOfOption, stringOf]
          exact ⟨(Unheard.decide w.host event sessionId).trans (.flag _ _ _ _),
            grows_noted ((Noted.decide w.host event sessionId).trans (.flag _ _ _ _)),
            Or.inl ⟨rfl, _, .flag (Unheard.decide w.host event sessionId).anomalies _ _ _⟩⟩
        · exact sealOutcome_decided hadm

theorem decideOutcome_decided (hjcs : JcsFaithful P) (hsound : Sound P w committed pending) (hadm : Admissible event)
    (htell : DigestsTell P (event :: committed.map SealedRecord.event))
    (hterminals : EachSession (TerminalsSealed P) w.host committed) :
    Decided P answers event w (World.replying .outcome (decideOutcome P answers event sessionId w)).1
      (World.replying .outcome (decideOutcome P answers event sessionId w)).2 := by
  rcases @decideOutcome_cases P answers event sessionId w hadm with hdecided | hrepeated
  · exact hdecided
  · obtain ⟨digest, hdigest, hrepeat⟩ := hrepeated.known
    rw [hrepeated.same]
    refine ⟨.refl _, Or.inl rfl, Or.inr (Or.inr (Or.inl ?_))⟩
    apply repeated_sealedAs hjcs hsound hadm hadm.current.session hdigest htell
    rcases hrepeat with hmem | hterminal
    · exact (hsound.tables.digests digest).mp hmem
    · obtain ⟨session, hopen, hget⟩ := Option.bind_eq_some_iff.mp hterminal
      exact hterminals sessionId session hopen _ digest hget

end Decisions

end AuditableMcp
