import AuditableMcp.Host.Hearing

-- The events whose signatures a host verified, and how it answered them.
namespace AuditableMcp

-- The session in which a host with a known chain verifies the signature of an event it admits.
def verifiedIn (P : Primitives) (answers : Answers) (event : Json) (expected : Option JsString) (attempt : Bool)
    (w : World) : Option JsString :=
  match chainKnown P answers w with
  | (settled, .ok true) =>
      match settled.host.admitEvent P event expected attempt with
      | (host, .ok (.session sessionId)) =>
          match host.verifySignature P answers event sessionId with
          | (_, .ok none) => some sessionId
          | _ => none
      | _ => none
  | _ => none

def Call.answers : Call → Option Answers
  | .attempt answers _ _ _ => some answers
  | .outcome answers _ _ => some answers
  | _ => none

-- The event a call delivers.
def Call.event : Call → Option Json
  | .attempt _ event _ _ => some event
  | .outcome _ event _ => some event
  | _ => none

-- The event a call delivers and whose signature it verifies, and the event's session.
def Call.receives (P : Primitives) (w : World) : Call → Option (Json × JsString)
  | .attempt answers event expected expired =>
      if expired then none else (verifiedIn P answers event expected true w).map fun sessionId => (event, sessionId)
  | .outcome answers event expected =>
      if event.isObject then (verifiedIn P answers event expected false w).map fun sessionId => (event, sessionId)
      else none
  | _ => none

section Receiving

variable {P : Primitives} {answers : Answers} {event : Json} {sessionId keyId : JsString} {signerSeq : JsNum}
  {expected : Option JsString} {attempt : Bool}

theorem gapFlagged_anomalies (host : AuditHost) (received : Option JsNum) :
    host.anomalies <+: (host.gapFlagged P event received signerSeq).anomalies := by
  unfold AuditHost.gapFlagged
  split
  · exact List.prefix_append _ _
  · exact List.prefix_rfl

theorem receive_anomalies (host : AuditHost) : (host.receive P event sessionId keyId signerSeq).anomalies =
    (host.gapFlagged P event (host.receivedNumber sessionId keyId) signerSeq).anomalies := by
  unfold AuditHost.receive
  dsimp only
  split
  · obtain ⟨sessions, hs⟩ := (host.gapFlagged P event (host.receivedNumber sessionId keyId) signerSeq).modifySession_fields
      sessionId fun session => { session with received := session.received.set keyId signerSeq }
    rw [hs]
  · rfl

-- A number past the expected one is flagged.
theorem receive_gap {host : AuditHost}
    (h : (AuditHost.expectedNumber (host.receivedNumber sessionId keyId)).lt signerSeq = true) :
    Records host (host.receive P event sessionId keyId signerSeq) (eventId event) .signerSeqGap := by
  unfold Records
  rw [receive_anomalies, AuditHost.gapFlagged, if_pos h]
  exact Records.flag List.prefix_rfl _ _ _

-- Only the number received takes a place among the highest.
theorem receive_number {host : AuditHost} {other key : JsString} {highest : JsNum}
    (h : (host.receive P event sessionId keyId signerSeq).receivedNumber other key = some highest) :
    host.receivedNumber other key = some highest ∨ other = sessionId ∧ key = keyId ∧ highest = signerSeq := by
  have hflagged : ∀ received, (host.gapFlagged P event received signerSeq).receivedNumber other key =
      host.receivedNumber other key := fun received => by
    unfold AuditHost.receivedNumber
    rw [AuditHost.gapFlagged_sessions]
  unfold AuditHost.receive at h
  dsimp only at h
  split at h
  · unfold AuditHost.receivedNumber at h
    rw [AuditHost.get_modifySession] at h
    by_cases ho : sessionId = other
    · subst ho
      rw [if_pos rfl, AuditHost.gapFlagged_sessions] at h
      obtain ⟨later, hlater, hget⟩ := Option.bind_eq_some_iff.mp h
      obtain ⟨session, hsession, rfl⟩ := Option.map_eq_some_iff.mp hlater
      rw [OrderedMap.get_set] at hget
      split at hget
      · rename_i hk
        exact Or.inr ⟨rfl, hk.symm, (Option.some.inj hget).symm⟩
      · left
        unfold AuditHost.receivedNumber
        rw [hsession]
        exact hget
    · rw [if_neg ho] at h
      rw [← hflagged]
      exact Or.inl h
  · rw [hflagged] at h
    exact Or.inl h

-- At Level 2 a signature verifies for an event that carries a number, which is then received.
theorem verifySignature_receives {host later : AuditHost} (hlevel : host.config.capability.level = .L2)
    (hadm : Admissible event) (h : host.verifySignature P answers event sessionId = (later, .ok none)) :
    ∃ keyId n, numberOf event = some (keyId, .ofNat n) ∧ later = host.receive P event sessionId keyId (.ofNat n) := by
  unfold AuditHost.verifySignature at h
  rw [if_neg (by simp [hlevel])] at h
  split at h
  · simp at h
  · rename_i keyId signerSeq hfields
    have hnumber := AuditHost.level2Fields_numberOf hfields
    obtain ⟨n, rfl⟩ : ∃ n : Nat, signerSeq = .ofNat n := by
      unfold numberOf at hnumber
      rcases hadm.current.signerSeq with hnone | ⟨n, hn, -⟩
      · simp [hnone] at hnumber
      · rw [hn] at hnumber
        split at hnumber
        · rename_i key number hkey hseq
          obtain ⟨-, rfl⟩ : key = keyId ∧ number = signerSeq := by simpa using hnumber
          exact ⟨n, by simpa using hseq.symm⟩
        · cases hnumber
    split at h
    · simp at h
    · simp at h
    · exact ⟨keyId, n, hnumber, (Prod.mk.inj h).1.symm⟩

theorem verifySignature_unheard {host later : AuditHost} {result : Except JsError (Option RejectReason)}
    (h : host.verifySignature P answers event sessionId = (later, result)) (hne : result ≠ .ok none) :
    Unheard host later := by
  unfold AuditHost.verifySignature at h
  split at h
  · exact absurd (Prod.mk.inj h).2.symm hne
  · split at h
    · rw [← (Prod.mk.inj h).1]
      exact .flag host _ _ _
    · split at h
      · rw [← (Prod.mk.inj h).1]
        exact .refl host
      · rw [← (Prod.mk.inj h).1]
        exact .flag host _ _ _
      · exact absurd (Prod.mk.inj h).2.symm hne

end Receiving

-- What a call does with an event whose signature it verified.
structure Receipt (answers : Answers) (event : Json) (sessionId keyId : JsString) (n : Nat) (before after : World)
    (reply : Reply) : Prop where
  named : event.get Fields.SESSION_ID = some (.str sessionId)
  numbered : numberOf event = some (keyId, .ofNat n)
  received : ∀ other key highest, after.host.receivedNumber other key = some highest →
    before.host.receivedNumber other key = some highest ∨ other = sessionId ∧ key = keyId ∧ highest = .ofNat n
  gap : (AuditHost.expectedNumber (before.host.receivedNumber sessionId keyId)).lt (.ofNat n) = true →
    Records before.host after.host (eventId event) .signerSeqGap
  grows : Grows event before after
  answered : (reply.refused = true ∧ ∃ kind, Records before.host after.host (eventId event) kind) ∨
    reply.undecided = true ∨ SealedAs after.chain event ∨ ¬Sealable answers before

-- A call that verifies no signature receives nothing and seals nothing.
structure Unreceived (before after : World) : Prop where
  received : ∀ other key highest, after.host.receivedNumber other key = some highest →
    before.host.receivedNumber other key = some highest
  chain : after.chain = before.chain

-- A delivery that is not heard leaves the numbers received and the chain as they are.
structure Unmoved (before after : World) : Prop where
  unheard : Unheard before.host after.host
  chain : after.chain = before.chain

theorem Unmoved.unreceived {w after : World} (h : Unmoved w after) : Unreceived w after :=
  ⟨fun other key highest hget => by rwa [h.unheard.received] at hget, h.chain⟩

theorem Unmoved.trans {a b c : World} (hab : Unmoved a b) (hbc : Unmoved b c) : Unmoved a c :=
  ⟨hab.unheard.trans hbc.unheard, by rw [hbc.chain, hab.chain]⟩

section Calls

variable {P : Primitives} {answers : Answers} {event : Json} {sessionId : JsString} {expected : Option JsString}
  {attempt : Bool} {w : World} {committed pending : List SealedRecord}

-- Settling the tail, verifying and deciding, taken together.
theorem receipt_of_decided {adopted : Option SealedRecord} {settled after : World} {later : AuditHost} {reply : Reply}
    (hsound : Sound P w committed pending) (hlevel : w.host.config.capability.level = .L2)
    (hsettles : Settles P w adopted settled) (hadmits : settled.host.Admits event expected attempt sessionId)
    (hverify : settled.host.verifySignature P answers event sessionId = (later, .ok none))
    (hdecided : Decided P answers event (settled.withHost later) after reply) :
    ∃ keyId n, Receipt answers event sessionId keyId n w after reply := by
  obtain ⟨keyId, n, hnumber, rfl⟩ := verifySignature_receives (by rw [hsettles.config]; exact hlevel) hadmits.admissible
    hverify
  have hnoted := Noted.receive P settled.host event sessionId keyId (.ofNat n)
  have hbefore := (Unheard.settles hsettles).anomalies
  have hreceiving : settled.host.anomalies <+: (settled.host.receive P event sessionId keyId (.ofNat n)).anomalies := by
    rw [receive_anomalies]
    exact gapFlagged_anomalies settled.host _
  have hchain : World.chain (settled.withHost (settled.host.receive P event sessionId keyId (.ofNat n))) = w.chain := by
    rw [chain_withHost hnoted.config hnoted.ledger, hsettles.chain]
  have hconfig : (settled.host.receive P event sessionId keyId (.ofNat n)).config = w.host.config := by
    rw [hnoted.config, hsettles.config]
  refine ⟨keyId, n, hadmits.named, hnumber, fun other key highest hget => ?_, fun hgap => ?_, ?_, ?_⟩
  · rw [hdecided.unheard.received] at hget
    rw [← (Unheard.settles hsettles).received]
    exact receive_number hget
  · rw [← (Unheard.settles hsettles).received] at hgap
    exact ((receive_gap hgap).earlier hbefore hreceiving).later (hbefore.trans hreceiving) hdecided.unheard.anomalies
  · unfold Grows
    rw [← hchain, ← hconfig]
    exact hdecided.grows
  · rcases hdecided.answered with ⟨hrefused, kind, hrecords⟩ | hundecided | hsealed | ⟨e, hthrew⟩
    · exact Or.inl ⟨hrefused, kind, hrecords.earlier (hbefore.trans hreceiving) hdecided.unheard.anomalies⟩
    · exact Or.inr (Or.inl hundecided)
    · exact Or.inr (Or.inr (Or.inl hsealed))
    · refine Or.inr (Or.inr (Or.inr fun hsealable => ?_))
      obtain ⟨_, _, hsettled⟩ := hsound.settles hsettles
      have hready : Sealable answers (settled.withHost (settled.host.receive P event sessionId keyId (.ofNat n))) :=
        ⟨hconfig.symm ▸ hsealable.signable, hsealable.clock, hchain.symm ▸ hsealable.count⟩
      obtain ⟨prepared, hprepared⟩ := prepare_isOk (P := P) (hsettled.framed hnoted.framed) hadmits.admissible hready
      rw [hthrew] at hprepared
      cases hprepared

-- No session admits the event and verifies its signature.
def Unverified (P : Primitives) (answers : Answers) (event : Json) (expected : Option JsString) (attempt : Bool)
    (host : AuditHost) : Prop :=
  ∀ sessionId later, host.admitEvent P event expected attempt = (host, .ok (.session sessionId)) →
    host.verifySignature P answers event sessionId ≠ (later, .ok none)

theorem verifiedIn_eq_some (h : verifiedIn P answers event expected attempt w = some sessionId) :
    ∃ settled later, chainKnown P answers w = (settled, .ok true) ∧
      settled.host.admitEvent P event expected attempt = (settled.host, .ok (.session sessionId)) ∧
      settled.host.verifySignature P answers event sessionId = (later, .ok none) := by
  unfold verifiedIn at h
  split at h
  · rename_i settled hknown
    split at h
    · rename_i host admitted hadmission
      obtain ⟨rfl, -⟩ := AuditHost.admitEvent_session hadmission
      split at h
      · rename_i later hverify
        obtain rfl := Option.some.inj h
        exact ⟨settled, later, hknown, hadmission, hverify⟩
      · cases h
    · cases h
  · cases h

theorem verifiedIn_eq_none (h : verifiedIn P answers event expected attempt w = none) {settled : World}
    (hknown : chainKnown P answers w = (settled, .ok true)) :
    Unverified P answers event expected attempt settled.host := by
  intro sessionId later hadmission hverify
  simp [verifiedIn, hknown, hadmission, hverify] at h

-- An event that is not verified is turned away without being heard.
theorem admitted_unmoved {host : AuditHost} {attempt : Bool}
    {admission : Except JsError AuditHost.Admission} (h : w.host.admitEvent P event expected attempt = (host, admission)) :
    Unmoved w (w.withHost host) := by
  have hunheard := Unheard.admitEvent P w.host event expected attempt
  have hnoted := Noted.admitEvent P w.host event expected attempt
  rw [h] at hunheard hnoted
  exact ⟨hunheard, chain_withHost hnoted.config hnoted.ledger⟩

theorem unverified_unmoved {later : AuditHost} {verdict : Except JsError (Option RejectReason)}
    (h : w.host.verifySignature P answers event sessionId = (later, verdict)) (hne : verdict ≠ .ok none) :
    Unmoved w (w.withHost later) := by
  have hnoted := Noted.verifySignature P answers w.host event sessionId
  rw [h] at hnoted
  exact ⟨verifySignature_unheard h hne, chain_withHost hnoted.config hnoted.ledger⟩

theorem judgeAttempt_unmoved (h : Unverified P answers event expected true w.host) :
    Unmoved w (judgeAttempt P answers event expected w).1 := by
  unfold judgeAttempt
  split
  · rename_i hadmission
    exact admitted_unmoved hadmission
  · rename_i hadmission
    exact admitted_unmoved hadmission
  · rename_i host sessionId hadmission
    obtain ⟨rfl, -⟩ := AuditHost.admitEvent_session hadmission
    split
    · rename_i hverify
      exact unverified_unmoved hverify (by simp)
    · rename_i later reason hverify
      have hunmoved := unverified_unmoved (w := w) hverify (by simp)
      exact ⟨hunmoved.unheard.trans (.rejectId later (eventId event)), hunmoved.chain⟩
    · rename_i later hverify
      exact absurd hverify (h sessionId later hadmission)

theorem judgeOutcome_unmoved (h : Unverified P answers event expected false w.host) :
    Unmoved w (judgeOutcome P answers event expected w).1 := by
  unfold judgeOutcome
  split
  · rename_i hadmission
    exact admitted_unmoved hadmission
  · rename_i hadmission
    exact admitted_unmoved hadmission
  · rename_i host sessionId hadmission
    obtain ⟨rfl, -⟩ := AuditHost.admitEvent_session hadmission
    split
    · rename_i hverify
      exact unverified_unmoved hverify (by simp)
    · rename_i hverify
      exact unverified_unmoved hverify (by simp)
    · rename_i later hverify
      exact absurd hverify (h sessionId later hadmission)

theorem Settles.unmoved {adopted : Option SealedRecord} {settled : World} (h : Settles P w adopted settled) :
    Unmoved w settled := ⟨Unheard.settles h, h.chain⟩

theorem handleAttempt_unmoved (hsound : Sound P w committed pending) {expired : Bool}
    (h : expired = true ∨ verifiedIn P answers event expected true w = none) :
    Unmoved w (handleAttempt P answers event expected expired w).1 := by
  unfold handleAttempt
  cases expired with
  | true => exact ⟨.refl w.host, rfl⟩
  | false =>
      have hnone := h.resolve_left (by simp)
      cases hknown : chainKnown P answers w with
      | mk settled result =>
          obtain ⟨adopted, hsettles, -⟩ := chainKnown_settles hsound.stored_admissible hknown
          rcases result with e | known
          · exact hsettles.unmoved
          · cases known with
            | false => exact hsettles.unmoved
            | true => exact hsettles.unmoved.trans (judgeAttempt_unmoved (verifiedIn_eq_none hnone hknown))

theorem recordOutcome_unmoved (hsound : Sound P w committed pending)
    (h : event.isObject = false ∨ verifiedIn P answers event expected false w = none) :
    Unmoved w (recordOutcome P answers event expected w).1 := by
  unfold recordOutcome
  cases hobject : event.isObject with
  | false => exact ⟨Unheard.flag w.host _ _ _, chain_withHost rfl rfl⟩
  | true =>
      have hnone := h.resolve_left (by simp [hobject])
      cases hknown : chainKnown P answers w with
      | mk settled result =>
          obtain ⟨adopted, hsettles, -⟩ := chainKnown_settles hsound.stored_admissible hknown
          simp only [Bool.not_true, Bool.false_eq_true, if_false]
          rcases result with e | known
          · exact hsettles.unmoved
          · cases known with
            | false => exact hsettles.unmoved
            | true => exact hsettles.unmoved.trans (judgeOutcome_unmoved (verifiedIn_eq_none hnone hknown))

-- The host restarted.
def Call.restarts : Call → Bool
  | .resume _ _ _ => true
  | _ => false

theorem receivedNumber_openSession {host : AuditHost} {sessionId other key : JsString} {highest : JsNum}
    (h : (host.openSession sessionId).1.receivedNumber other key = some highest) :
    host.receivedNumber other key = some highest := by
  unfold AuditHost.openSession at h
  split at h
  · exact h
  · unfold AuditHost.receivedNumber at h ⊢
    rw [OrderedMap.get_set] at h
    split at h
    · simp [Session.new] at h
    · exact h

theorem receivedNumber_closeSession {host : AuditHost} {sessionId other key : JsString} {highest : JsNum}
    (h : (host.closeSession sessionId).receivedNumber other key = some highest) :
    host.receivedNumber other key = some highest := by
  unfold AuditHost.closeSession at h
  split at h
  · exact h
  · unfold AuditHost.receivedNumber at h ⊢
    rw [foldl_flag_sessions, OrderedMap.get_delete] at h
    split at h
    · simp at h
    · exact h

theorem perform_unmoved (hsound : Sound P w committed pending) {call : Call} (hevent : call.event = some event)
    (h : call.receives P w = none) : Unmoved w (perform P w call).1 := by
  cases call with
  | attempt answers event expected expired =>
      dsimp only [perform]
      rw [replying_fst]
      apply handleAttempt_unmoved hsound
      cases expired with
      | true => exact Or.inl rfl
      | false => exact Or.inr (by simpa [Call.receives] using h)
  | outcome answers event expected =>
      dsimp only [perform]
      rw [replying_fst]
      apply recordOutcome_unmoved hsound
      cases hobject : event.isObject with
      | false => exact Or.inl rfl
      | true => exact Or.inr (by simpa [Call.receives, hobject] using h)
  | _ => cases hevent

theorem perform_unreceived (hsound : Sound P w committed pending) {call : Call} (hrestarts : call.restarts = false)
    (h : call.receives P w = none) : Unreceived w (perform P w call).1 := by
  cases call with
  | openSession sessionId =>
      obtain ⟨hconfig, hledger, -⟩ := openSession_fields w.host sessionId
      dsimp only [perform]
      rw [replying_fst]
      exact ⟨fun _ _ _ => receivedNumber_openSession, chain_withHost hconfig hledger⟩
  | closeSession sessionId =>
      obtain ⟨hconfig, hledger, -⟩ := closeSession_fields w.host sessionId
      exact ⟨fun _ _ _ => receivedNumber_closeSession, chain_withHost hconfig hledger⟩
  | attempt answers event expected expired => exact (perform_unmoved hsound rfl h).unreceived
  | outcome answers event expected => exact (perform_unmoved hsound rfl h).unreceived
  | setPersistenceAvailable available => exact ⟨fun _ _ _ hget => hget, chain_withHost rfl rfl⟩
  | resume capability options openSessions => cases hrestarts

theorem DigestsTell.mono {events more : List Json} (h : DigestsTell P more) (hsub : ∀ event ∈ events, event ∈ more) :
    DigestsTell P events := fun first hf second hs => h first (hsub first hf) second (hsub second hs)

-- What stands when an event that was received is decided.
structure Weighed (P : Primitives) (answers : Answers) (event : Json) (expected : Option JsString) (attempt : Bool)
    (sessionId : JsString) (w settled : World) (later : AuditHost) : Prop where
  known : chainKnown P answers w = (settled, .ok true)
  admitted : settled.host.admitEvent P event expected attempt = (settled.host, .ok (.session sessionId))
  verified : settled.host.verifySignature P answers event sessionId = (later, .ok none)

theorem Weighed.settles {settled : World} {later : AuditHost} (hsound : Sound P w committed pending)
    (h : Weighed P answers event expected attempt sessionId w settled later) : ∃ adopted, Settles P w adopted settled := by
  obtain ⟨adopted, hsettles, -⟩ := chainKnown_settles hsound.stored_admissible h.known
  exact ⟨adopted, hsettles⟩

theorem Weighed.noted {settled : World} {later : AuditHost}
    (h : Weighed P answers event expected attempt sessionId w settled later) : Noted settled.host later := by
  have hnoted := Noted.verifySignature P answers settled.host event sessionId
  rwa [h.verified] at hnoted

-- A call that receives its event goes on to decide on it.
theorem receives_cases {call : Call} (h : call.receives P w = some (event, sessionId)) :
    ∃ answers expected settled later, call.answers = some answers ∧
      (Weighed P answers event expected true sessionId w settled later ∧
          perform P w call = World.replying .attempt (decideAttempt P answers event sessionId (settled.withHost later)) ∨
        Weighed P answers event expected false sessionId w settled later ∧
          perform P w call = World.replying .outcome (decideOutcome P answers event sessionId (settled.withHost later))) := by
  cases call with
  | attempt answers delivered expected expired =>
      cases expired with
      | true => simp [Call.receives] at h
      | false =>
          obtain ⟨session, hverified, hsame⟩ : ∃ session, verifiedIn P answers delivered expected true w = some session ∧
              (delivered, session) = (event, sessionId) := by simpa [Call.receives] using h
          obtain ⟨rfl, rfl⟩ := Prod.mk.inj hsame
          obtain ⟨settled, later, hknown, hadmission, hverify⟩ := verifiedIn_eq_some hverified
          refine ⟨answers, expected, settled, later, rfl, Or.inl ⟨⟨hknown, hadmission, hverify⟩, ?_⟩⟩
          simp [perform, handleAttempt, hknown, judgeAttempt, hadmission, hverify]
  | outcome answers delivered expected =>
      cases hobject : delivered.isObject with
      | false => simp [Call.receives, hobject] at h
      | true =>
          obtain ⟨session, hverified, hsame⟩ : ∃ session, verifiedIn P answers delivered expected false w = some session ∧
              (delivered, session) = (event, sessionId) := by simpa [Call.receives, hobject] using h
          obtain ⟨rfl, rfl⟩ := Prod.mk.inj hsame
          obtain ⟨settled, later, hknown, hadmission, hverify⟩ := verifiedIn_eq_some hverified
          refine ⟨answers, expected, settled, later, rfl, Or.inr ⟨⟨hknown, hadmission, hverify⟩, ?_⟩⟩
          simp [perform, recordOutcome, hobject, hknown, judgeOutcome, hadmission, hverify]
  | openSession => cases h
  | closeSession => cases h
  | setPersistenceAvailable => cases h
  | resume => cases h

theorem perform_receives (hjcs : JcsFaithful P) (hsound : Sound P w committed pending)
    (hlevel : w.host.config.capability.level = .L2) (hterminals : EachSession (TerminalsSealed P) w.host w.committed)
    {call : Call} (htell : DigestsTell P (event :: w.chain.map SealedRecord.event))
    (h : call.receives P w = some (event, sessionId)) : ∃ answers keyId n, call.answers = some answers ∧
      Receipt answers event sessionId keyId n w (perform P w call).1 (perform P w call).2 := by
  obtain ⟨answers, expected, settled, later, hanswers, ⟨hweighed, hperform⟩ | ⟨hweighed, hperform⟩⟩ := receives_cases h
  · obtain ⟨adopted, hsettles⟩ := hweighed.settles hsound
    obtain ⟨_, _, hsettled⟩ := hsound.settles hsettles
    have hadmits := (AuditHost.admitEvent_session hweighed.admitted).2
    have hdecided := @decideAttempt_decided _ answers _ sessionId _ _ _ hjcs (hsettled.framed hweighed.noted.framed)
      hadmits.admissible
    rw [← hperform] at hdecided
    obtain ⟨keyId, n, hreceipt⟩ := receipt_of_decided hsound hlevel hsettles hadmits hweighed.verified hdecided
    exact ⟨answers, keyId, n, hanswers, hreceipt⟩
  · obtain ⟨adopted, hsettles⟩ := hweighed.settles hsound
    obtain ⟨committed', pending', hsettled⟩ := hsound.settles hsettles
    have hadmits := (AuditHost.admitEvent_session hweighed.admitted).2
    have hbooks := (terminalsSealed_kept P).settles hsound hterminals hsettles
    rw [hsettled.committed_eq] at hbooks
    -- The events the digests are told apart for are those of the chain.
    have htold : DigestsTell P (event :: committed'.map SealedRecord.event) := by
      apply htell.mono
      intro other ho
      rw [← hsettles.chain, hsettled.chain, List.map_append]
      rcases List.mem_cons.mp ho with rfl | hmem
      · exact List.mem_cons_self ..
      · exact List.mem_cons_of_mem _ (List.mem_append_left _ hmem)
    have hdecided := @decideOutcome_decided _ answers _ sessionId _ _ _ hjcs (hsettled.framed hweighed.noted.framed)
      hadmits.admissible htold (hbooks.noted (terminalsSealed_kept P) hweighed.noted)
    rw [← hperform] at hdecided
    obtain ⟨keyId, n, hreceipt⟩ := receipt_of_decided hsound hlevel hsettles hadmits hweighed.verified hdecided
    exact ⟨answers, keyId, n, hanswers, hreceipt⟩

end Calls

-- Without a restart the chain only grows.
theorem Moves.chain_prefix {P : Primitives} {w w' : World} {committed pending : List SealedRecord} {call : Call}
    (hsound : Sound P w committed pending) (h : Moves P w call w') (hrestarts : call.restarts = false) :
    w.chain <+: w'.chain := by
  cases h with
  | stayed => exact List.prefix_rfl
  | opened sessionId hfresh => exact (chain_withHost rfl rfl).symm ▸ List.prefix_rfl
  | closed sessionId host hnoted => exact (chain_withHost hnoted.config hnoted.ledger).symm ▸ List.prefix_rfl
  | toggled available => exact (chain_withHost rfl rfl).symm ▸ List.prefix_rfl
  | resumed capability options openSessions config host hcall hconfig hhost =>
      rw [hcall] at hrestarts
      cases hrestarts
  | delivered event adopted answered settled after hadopts hsettles hdelivers =>
      obtain ⟨_, _, hsettled⟩ := hsound.settles hsettles
      rw [← hsettles.chain]
      rcases hdelivers.chain hsettled with hsame | ⟨record, -, hgrown⟩
      · exact hsame.symm ▸ List.prefix_rfl
      · rw [hgrown]
        exact List.prefix_append _ _

-- An event a run received, what its call recorded, and how it was answered.
structure Reception where
  event : Json
  sessionId : JsString
  recorded : List IntegrityAnomaly
  reply : Reply

namespace Reception

def has (received : Reception) (keyId sessionId : JsString) (n : Nat) : Prop :=
  received.sessionId = sessionId ∧ numberOf received.event = some (keyId, .ofNat n)

-- An anomaly of this kind was recorded for the event.
def flags (received : Reception) (kind : Tier1Code) : Prop :=
  ∃ detail, ⟨eventId received.event, kind, detail⟩ ∈ received.recorded

-- The event was refused, which was recorded, or left undecided.
def turnedAway (received : Reception) : Prop :=
  (received.reply.refused = true ∧ ∃ kind, received.flags kind) ∨ received.reply.undecided = true

end Reception

def Call.reception (P : Primitives) (w : World) (call : Call) : Option Reception :=
  (call.receives P w).map fun delivery => ⟨delivery.1, delivery.2,
    (perform P w call).1.host.anomalies.drop w.host.anomalies.length, (perform P w call).2⟩

-- What a list of calls receives, one after the other.
def receptions (P : Primitives) : World → List Call → List Reception
  | _, [] => []
  | w, call :: rest => (call.reception P w).toList ++ receptions P (perform P w call).1 rest

theorem receptions_append_singleton (P : Primitives) (w : World) (calls : List Call) (call : Call) :
    receptions P w (calls ++ [call]) = receptions P w calls ++ (call.reception P (run P w calls)).toList := by
  induction calls generalizing w with
  | nil => simp [receptions, run]
  | cons first rest ih => simp only [List.cons_append, receptions, ih, List.append_assoc, run_cons]

-- A number was received, or a larger one of its key and session was flagged as a gap.
def HeardOf (received : List Reception) (keyId sessionId : JsString) (v : Nat) : Prop :=
  (∃ r ∈ received, r.has keyId sessionId v) ∨
    ∃ r ∈ received, ∃ n, v < n ∧ r.has keyId sessionId n ∧ r.flags .signerSeqGap

-- What the events received account for: the highest numbers, the records, every smaller
-- number, and what became of each event.
structure Witnessed (received : List Reception) (w : World) : Prop where
  highest : ∀ sessionId keyId number, w.host.receivedNumber sessionId keyId = some number →
    ∃ n, number = .ofNat n ∧ ∃ r ∈ received, r.has keyId sessionId n
  chain : ∀ record ∈ w.chain, ∃ r ∈ received, r.event = record.event
  named : ∀ r ∈ received, r.event.get Fields.SESSION_ID = some (.str r.sessionId)
  below : ∀ r ∈ received, ∀ keyId sessionId n, r.has keyId sessionId n → ∀ v < n, HeardOf received keyId sessionId v
  answered : ∀ r ∈ received, r.turnedAway ∨ SealedAs w.chain r.event

theorem HeardOf.mono {received more : List Reception} {keyId sessionId : JsString} {v : Nat}
    (h : HeardOf received keyId sessionId v) (hsub : ∀ r ∈ received, r ∈ more) : HeardOf more keyId sessionId v := by
  rcases h with ⟨r, hr, hhas⟩ | ⟨r, hr, hgap⟩
  · exact Or.inl ⟨r, hsub r hr, hhas⟩
  · exact Or.inr ⟨r, hsub r hr, hgap⟩

theorem SealedAs.mono {records more : List SealedRecord} {event : Json} (h : SealedAs records event)
    (hsub : records <+: more) : SealedAs more event := by
  obtain ⟨record, hr, hsame⟩ := h
  exact ⟨record, hsub.subset hr, hsame⟩

namespace Witnessed

variable {received : List Reception} {w after : World}

theorem unreceived (h : Witnessed received w) (hnone : Unreceived w after) : Witnessed received after := by
  refine ⟨fun sessionId keyId number hget => h.highest sessionId keyId number (hnone.received _ _ _ hget), ?_, h.named,
    h.below, ?_⟩
  · rw [hnone.chain]
    exact h.chain
  · rw [hnone.chain]
    exact h.answered

theorem expectedNumber_ofNat (n : Nat) : AuditHost.expectedNumber (some (.ofNat n)) = .ofNat (n + 1) := by
  simp [AuditHost.expectedNumber, JsNum.succ, JsNum.ofNat]

theorem ofNat_lt {n m : Nat} : (JsNum.ofNat n).lt (.ofNat m) = true ↔ n < m := by
  simp [JsNum.ofNat, JsNum.lt]

theorem received_by (h : Witnessed received w) {answers : Answers} {new : Reception} {keyId : JsString} {n : Nat}
    (hrecorded : new.recorded = after.host.anomalies.drop w.host.anomalies.length)
    (hreceipt : Receipt answers new.event new.sessionId keyId n w after new.reply) (hsealable : Sealable answers w)
    (hextends : w.chain <+: after.chain) : Witnessed (received ++ [new]) after := by
  have hsub : ∀ r ∈ received, r ∈ received ++ [new] := fun r hr => List.mem_append_left _ hr
  have hown : new ∈ received ++ [new] := List.mem_append_right _ (List.mem_singleton_self new)
  have hflags : ∀ {kind}, Records w.host after.host (eventId new.event) kind → new.flags kind := by
    intro kind hrecords
    unfold Reception.flags
    rw [hrecorded]
    exact hrecords
  refine ⟨fun other key number hget => ?_, fun record hr => ?_, ?_, ?_, ?_⟩
  · rcases hreceipt.received other key number hget with hold | ⟨rfl, rfl, rfl⟩
    · obtain ⟨m, rfl, r, hr, hhas⟩ := h.highest other key number hold
      exact ⟨m, rfl, r, hsub r hr, hhas⟩
    · exact ⟨n, rfl, new, hown, rfl, hreceipt.numbered⟩
  · rcases hreceipt.grows with hsame | ⟨-, added, hadded, hgrown⟩
    · rw [hsame] at hr
      obtain ⟨r, hr, hevent⟩ := h.chain record hr
      exact ⟨r, hsub r hr, hevent⟩
    · rw [hgrown] at hr
      rcases List.mem_append.mp hr with hold | hnew
      · obtain ⟨r, hr, hevent⟩ := h.chain record hold
        exact ⟨r, hsub r hr, hevent⟩
      · rw [List.mem_singleton.mp hnew, hadded]
        exact ⟨new, hown, rfl⟩
  · simp only [List.forall_mem_append, List.forall_mem_singleton]
    exact ⟨h.named, hreceipt.named⟩
  · simp only [List.forall_mem_append, List.forall_mem_singleton]
    refine ⟨fun r hr key other m hhas v hv => (h.below r hr key other m hhas v hv).mono hsub, ?_⟩
    rintro key other m ⟨rfl, hnumber⟩ v hv
    obtain ⟨rfl, rfl⟩ : keyId = key ∧ n = m := by
      have hsame := hreceipt.numbered.symm.trans hnumber
      simpa [JsNum.ofNat] using hsame
    by_cases hgap : (AuditHost.expectedNumber (w.host.receivedNumber new.sessionId keyId)).lt (.ofNat n) = true
    · exact Or.inr ⟨new, hown, n, hv, ⟨rfl, hreceipt.numbered⟩, hflags (hreceipt.gap hgap)⟩
    · -- No gap: the highest number received is at least the one before.
      cases hhighest : w.host.receivedNumber new.sessionId keyId with
      | none =>
          rw [hhighest] at hgap
          have hpos : (JsNum.ofNat 0).lt (.ofNat n) = true := ofNat_lt.mpr (by omega)
          exact absurd hpos hgap
      | some number =>
          obtain ⟨highest, rfl, r, hr, hhas⟩ := h.highest new.sessionId keyId number hhighest
          rw [hhighest, expectedNumber_ofNat, ofNat_lt] at hgap
          by_cases hv' : v = highest
          · rw [hv']
            exact Or.inl ⟨r, hsub r hr, hhas⟩
          · exact (h.below r hr keyId new.sessionId highest hhas v (by omega)).mono hsub
  · simp only [List.forall_mem_append, List.forall_mem_singleton]
    refine ⟨fun r hr => (h.answered r hr).imp id fun hsealed => hsealed.mono hextends, ?_⟩
    rcases hreceipt.answered with ⟨hrefused, kind, hrecords⟩ | hundecided | hsealed | hnot
    · exact Or.inl (Or.inl ⟨hrefused, kind, hflags hrecords⟩)
    · exact Or.inl (Or.inr hundecided)
    · exact Or.inr hsealed
    · exact absurd hsealable hnot

end Witnessed

-- The host's clock gives well-formed texts.
def Call.Clocked (call : Call) : Prop := ∀ answers, call.answers = some answers → LONE_SURROGATE answers.now = false

theorem Moves.config {P : Primitives} {w w' : World} {call : Call} (h : Moves P w call w')
    (hrestarts : call.restarts = false) : w'.host.config = w.host.config := by
  cases h with
  | stayed => rfl
  | opened sessionId hfresh => rfl
  | closed sessionId host hnoted => exact hnoted.config
  | toggled available => rfl
  | resumed capability options openSessions config host hcall hconfig hhost =>
      rw [hcall] at hrestarts
      cases hrestarts
  | delivered event adopted answered settled after hadopts hsettles hdelivers =>
      exact hdelivers.config.trans hsettles.config

theorem run_keeps_config {P : Primitives} {w : World} {committed pending : List SealedRecord} (hsound : Sound P w committed pending)
    (calls : List Call) (hrestarts : ∀ call ∈ calls, call.restarts = false) :
    (run P w calls).host.config = w.host.config := by
  refine (run_induction (P := P) (I := fun later => later.host.config = w.host.config) (fun _ call => call.restarts = false)
    (fun later _ _ call after _ hgood hmoves _ hI => (hmoves.config hgood).trans hI) hsound rfl calls ?_).1
  intro before call after hsplit
  exact hrestarts call (by rw [hsplit]; simp)

section Runs

variable {P : Primitives} {config : HostConfig}

theorem run_config (calls : List Call) (hrestarts : ∀ call ∈ calls, call.restarts = false) :
    (run P (World.new config) calls).host.config = config :=
  run_keeps_config (sound_new P config) calls hrestarts

theorem chain_new (config : HostConfig) : (World.new config).chain = [] := by
  cases h : config.repository <;> simp [World.chain, World.new, AuditHost.new, Ledger.new, h]

-- A host that cannot countersign seals nothing.
theorem run_unsignable (hjcs : JcsFaithful P) (hlevel : config.capability.level = .L2) (hsignable : ¬Signable config)
    (calls : List Call) (hrestarts : ∀ call ∈ calls, call.restarts = false) :
    (run P (World.new config) calls).chain = [] := by
  induction calls using List.reverseRecOn with
  | nil => exact chain_new config
  | append_singleton calls call ih =>
      have hbefore := fun other ho => hrestarts other (List.mem_append_left _ ho)
      have hempty := ih hbefore
      have hconfig := @run_config P config calls hbefore
      obtain ⟨_, _, hsound⟩ := run_sound (sound_new P config) calls
      rw [run_append]
      show (perform P (run P (World.new config) calls) call).1.chain = []
      cases hreceives : call.receives P (run P (World.new config) calls) with
      | none =>
          rw [(perform_unreceived hsound (hrestarts call (by simp)) hreceives).chain]
          exact hempty
      | some delivery =>
          obtain ⟨event, sessionId⟩ := delivery
          have htell : DigestsTell P (event :: (run P (World.new config) calls).chain.map SealedRecord.event) := by
            rw [hempty]
            intro first hf second hs digest _ _
            rw [List.mem_singleton.mp hf, List.mem_singleton.mp hs]
          obtain ⟨answers, keyId, n, -, hreceipt⟩ := perform_receives hjcs hsound (by rw [hconfig]; exact hlevel)
            ((terminalsSealed_kept P).run hjcs config calls) htell hreceives
          rcases hreceipt.grows with hsame | ⟨hsigns, -⟩
          · rw [hsame]
            exact hempty
          · rw [hconfig] at hsigns
            exact absurd hsigns hsignable

-- After any run without a restart, what was received accounts for what is on the books.
theorem run_witnessed (hjcs : JcsFaithful P) (hlevel : config.capability.level = .L2) (hsignable : Signable config)
    (calls : List Call) (hrestarts : ∀ call ∈ calls, call.restarts = false) (hclock : ∀ call ∈ calls, call.Clocked)
    (hlength : ((run P (World.new config) calls).chain.length : ℚ) ≤ MAX_SAFE_INTEGER)
    (htell : DigestsTell P ((receptions P (World.new config) calls).map Reception.event)) :
    Witnessed (receptions P (World.new config) calls) (run P (World.new config) calls) := by
  induction calls using List.reverseRecOn with
  | nil =>
      have hempty : (run P (World.new config) []).chain = [] := chain_new config
      refine ⟨fun sessionId keyId number hget => ?_, fun record hr => ?_, by simp [receptions], by simp [receptions],
        by simp [receptions]⟩
      · simp [run, World.new, AuditHost.new, AuditHost.receivedNumber] at hget
      · rw [hempty] at hr
        cases hr
  | append_singleton calls call ih =>
      have hbefore := fun other ho => hrestarts other (List.mem_append_left _ ho)
      obtain ⟨_, _, hsound⟩ := run_sound (sound_new P config) calls
      have hconfig := @run_config P config calls hbefore
      have hmoves := perform_moves (P := P) call hsound.stored_admissible
      have hextends := hmoves.chain_prefix hsound (hrestarts call (by simp))
      rw [receptions_append_singleton] at htell ⊢
      rw [run_append] at hlength ⊢
      replace hlength : (((run P (World.new config) calls).chain.length : ℕ) : ℚ) ≤ MAX_SAFE_INTEGER :=
        le_trans (by exact_mod_cast hextends.length_le) hlength
      have hwitnessed := ih hbefore (fun other ho => hclock other (List.mem_append_left _ ho)) hlength
        (htell.mono fun event hevent => by
          rw [List.map_append]
          exact List.mem_append_left _ hevent)
      show Witnessed _ (perform P (run P (World.new config) calls) call).1
      unfold Call.reception at htell ⊢
      cases hreceives : call.receives P (run P (World.new config) calls) with
      | none =>
          rw [Option.map_none, Option.toList_none, List.append_nil]
          exact hwitnessed.unreceived (perform_unreceived hsound (hrestarts call (by simp)) hreceives)
      | some delivery =>
          obtain ⟨event, sessionId⟩ := delivery
          rw [hreceives, Option.map_some, Option.toList_some] at htell
          rw [Option.map_some, Option.toList_some]
          -- Every sealed event was received, so the digests told apart are those of the records.
          have htold : DigestsTell P (event :: (run P (World.new config) calls).chain.map SealedRecord.event) := by
            apply htell.mono
            intro other hother
            rw [List.map_append]
            rcases List.mem_cons.mp hother with rfl | hsealed
            · exact List.mem_append_right _ (List.mem_singleton_self _)
            · obtain ⟨record, hr, rfl⟩ := List.mem_map.mp hsealed
              obtain ⟨r, hr, hevent⟩ := hwitnessed.chain record hr
              exact List.mem_append_left _ (List.mem_map.mpr ⟨r, hr, hevent⟩)
          obtain ⟨answers, keyId, n, hanswers, hreceipt⟩ := perform_receives hjcs hsound (by rw [hconfig]; exact hlevel)
            ((terminalsSealed_kept P).run hjcs config calls) htold hreceives
          have hsealable : Sealable answers (run P (World.new config) calls) :=
            ⟨by rw [hconfig]; exact hsignable, hclock call (by simp) answers hanswers, hlength⟩
          exact hwitnessed.received_by rfl hreceipt hsealable hextends

end Runs

end AuditableMcp
