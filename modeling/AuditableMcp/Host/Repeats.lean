import AuditableMcp.Host.Coverage
import AuditableMcp.Host.Durability
import AuditableMcp.Validity
import Mathlib.Tactic.Linarith

namespace AuditableMcp

-- Two events with one canonical form: what the host calls byte-identical.
def CanonicallyEqual (P : Primitives) (first second : Json) : Prop :=
  ∃ text, canonicalize P first = .ok text ∧ canonicalize P second = .ok text

theorem sameBytes_eq_true {P : Primitives} {first second : Json} :
    sameBytes P first second = .ok true ↔ CanonicallyEqual P first second := by
  unfold sameBytes CanonicallyEqual
  cases hf : canonicalize P first with
  | error e => simp [bind, Except.bind]
  | ok a =>
      cases hs : canonicalize P second with
      | error e => simp [bind, Except.bind]
      | ok b => simp [bind, Except.bind, pure, Except.pure, eq_comm]

section

variable {P : Primitives} {first second : Json}

theorem canon_eq_of_canonicallyEqual (hjcs : JcsFaithful P) (h : CanonicallyEqual P first second) :
    first.canon = second.canon := by
  obtain ⟨text, hf, hs⟩ := h
  exact (canonicalize_eq_iff hjcs (canonicalizable_of_ok hf).1 (canonicalizable_of_ok hs).1).mp (by rw [hf, hs])

theorem isAttempted_of_canon_eq (h : first.canon = second.canon) : isAttempted first = isAttempted second :=
  Json.isText_same (Json.same_get h Fields.OUTCOME) _

theorem eventId_of_canon_eq (h : first.canon = second.canon) : eventId first = eventId second := by
  have hid := Json.alike_of_same (Json.same_get h Fields.ID)
  unfold eventId
  generalize first.get Fields.ID = a at hid ⊢
  generalize second.get Fields.ID = b at hid ⊢
  cases hid <;> rfl

theorem numberOf_of_canon_eq (h : first.canon = second.canon) : numberOf first = numberOf second := by
  have hkey := Json.alike_of_same (Json.same_get h Fields.KEY_ID)
  have hnumber := Json.alike_of_same (Json.same_get h Fields.SIGNER_SEQ)
  unfold numberOf
  generalize first.get Fields.KEY_ID = a at hkey ⊢
  generalize second.get Fields.KEY_ID = b at hkey ⊢
  generalize first.get Fields.SIGNER_SEQ = c at hnumber ⊢
  generalize second.get Fields.SIGNER_SEQ = d at hnumber ⊢
  cases hkey with
  | same =>
      cases hnumber with
      | same => rfl
      | arr => cases a with
        | none => rfl
        | some value => cases value <;> rfl
      | obj => cases a with
        | none => rfl
        | some value => cases value <;> rfl
  | arr => cases hnumber <;> rfl
  | obj => cases hnumber <;> rfl

-- An event with the canonical form of an admissible one is admissible.
theorem Admissible.of_canonicallyEqual (hjcs : JcsFaithful P) (hadm : Admissible first)
    (h : CanonicallyEqual P first second) : Admissible second := by
  have hcanon := canon_eq_of_canonicallyEqual hjcs h
  obtain ⟨text, -, hs⟩ := h
  obtain ⟨hcanonicalizable, -⟩ := canonicalizable_of_ok hs
  obtain ⟨hschema, -⟩ := firstValidationError_eq_none.mp hadm.valid
  refine ⟨firstValidationError_eq_none.mpr ⟨?_, hcanonicalizable.2⟩, hcanonicalizable.1⟩
  exact (respects_auditEvent (some first) (some second) (by simp [Json.Same, hcanon])).mp hschema

end

-- What a host was cleared to seal is canonically new in its chain.
theorem Extends.canonically_new {P : Primitives} (hjcs : JcsFaithful P) {w : World}
    {committed pending : List SealedRecord} (hsound : Sound P w committed pending) {record : SealedRecord}
    (h : Extends P w record) : ∀ other ∈ w.chain, ¬CanonicallyEqual P other.event record.event := by
  obtain ⟨host, sessionId, session, hnoted, hclear, hchain⟩ := h
  intro other ho hequal
  have hcanon := canon_eq_of_canonicallyEqual hjcs hequal
  have hkind := isAttempted_of_canon_eq hcanon
  rw [hchain, hsound.committed_eq] at ho
  cases hattempt : isAttempted record.event with
  | true =>
      have habsent := hclear.attempt hattempt
      rw [hnoted.sealedAttempts, ← eventId_of_canon_eq hcanon] at habsent
      rw [(hsound.tables.attempts _ other).mpr ⟨ho, by rw [hkind, hattempt], rfl⟩] at habsent
      cases habsent
  | false =>
      obtain ⟨text, hother, hrecord⟩ := hequal
      have hdigest (event : Json) (he : canonicalize P event = .ok text) :
          digestOf P event = .ok (sha256Hex P text) := by
        simp [digestOf, he, bind, Except.bind, pure, Except.pure]
      have hmem := (hsound.tables.digests (sha256Hex P text)).mpr ⟨other, ho, hdigest _ hother⟩
      have hnew := hclear.unsealed hattempt _ (hdigest _ hrecord)
      rw [hnoted.sealedDigests] at hnew
      exact hnew hmem

-- Every open session has received the numbers of all records of its chain.
def Heard (w : World) : Prop :=
  ∀ sessionId session, w.host.sessions.get sessionId = some session →
    ∀ record ∈ w.chain, inSession record sessionId →
      ∀ keyId signerSeq, numberOf record.event = some (keyId, signerSeq) → session.hasReached keyId signerSeq

namespace Heard

variable {P : Primitives} {w w' : World} {committed pending : List SealedRecord}

theorem of_kept (h : Heard w) (hkept : SessionsKept w.host w'.host) (hchain : w'.chain = w.chain) : Heard w' := by
  intro sessionId later hl record hr hin keyId signerSeq hn
  obtain ⟨session, hs, hk⟩ := hkept sessionId later hl
  rw [hchain] at hr
  exact hk.reached keyId signerSeq (h sessionId session hs record hr hin keyId signerSeq hn)

-- The record a host was cleared to seal is heard in its session, which `after` keeps.
theorem extended (h : Heard w) {host after : AuditHost} {event : Json} {sessionId : JsString} {session : Session}
    {record : SealedRecord} {stored : List SealedRecord} (hnoted : Noted w.host host)
    (hclear : Cleared P host event sessionId session) (hcarries : record.event = event)
    (hlevel : host.config.capability.level = .L2) (hkept : SessionsKept host after)
    (hchain : World.chain ⟨after, stored⟩ = w.chain ++ [record]) : Heard ⟨after, stored⟩ := by
  intro sid later hl other ho hin keyId signerSeq hn
  obtain ⟨middle, hm, hk⟩ := hkept sid later hl
  rw [hchain] at ho
  rcases List.mem_append.mp ho with hmem | hmem
  · obtain ⟨before, hb, hsame⟩ := hnoted.only sid middle hm
    exact hk.reached keyId signerSeq
      (hsame.reached keyId signerSeq (h sid before hb other hmem hin keyId signerSeq hn))
  · rw [List.mem_singleton.mp hmem] at hin hn
    have hnamed : inSession record sessionId := by rw [inSession, hcarries]; exact hclear.named
    obtain rfl := inSession_unique hnamed hin
    obtain rfl : session = middle := by
      rw [hclear.isOpen] at hm
      exact Option.some.inj hm
    rw [hcarries] at hn
    exact hk.reached keyId signerSeq (hclear.heard hlevel keyId signerSeq hn)

theorem settles (h : Heard w) {adopted : Option SealedRecord} (hs : Settles P w adopted w') : Heard w' := by
  refine h.of_kept ?_ hs.chain
  cases hs with
  | kept => exact .of_sessions_eq rfl
  | confirmed => exact .of_sessions_eq rfl
  | adopted record digest sessionId => exact .adopting w.host record digest sessionId

theorem delivers (hlevel : w.host.config.capability.level = .L2)
    (h : Heard w) {event : Json} {answered : Option SealedRecord} (hd : Delivers P event w w' answered) :
    Heard w' := by
  cases hd with
  | noted host hnoted =>
      exact h.of_kept (.of_noted hnoted) (by simp [World.chain, hnoted.config, hnoted.ledger])
  | repeated host sessionId record hnoted =>
      have hf := hnoted.framed.trans (framed_acceptId host sessionId (eventId event))
      exact h.of_kept ((SessionsKept.of_noted hnoted).trans (.acceptId host sessionId _))
        (by simp [World.chain, hf.config, hf.ledger])
  | lost host hnoted =>
      exact h.of_kept ((SessionsKept.of_noted hnoted).trans (.of_sessions_eq rfl))
        (by simp [World.chain, hnoted.config, hnoted.ledger])
  | landed host sessionId session record hnoted hclear hrepo hcont =>
      exact h.extended hnoted hclear hcont.carries (by rw [hnoted.config]; exact hlevel) (.of_sessions_eq rfl)
        (by simp [World.chain, ← hnoted.config, hrepo])
  | sealed host sessionId session record digest hnoted hclear hcont hdigest =>
      have hf := framed_sealing host record digest sessionId
      obtain ⟨hconfig, hledger, -⟩ := committing_fields host record digest
      exact h.extended hnoted hclear hcont.carries (by rw [hnoted.config]; exact hlevel)
        (.sealing host record digest sessionId)
        (Sound.chain_keeping (by rw [hf.config, hconfig, hnoted.config]) (by rw [hf.ledger, hledger, hnoted.ledger]))

theorem moves (hsound : Sound P w committed pending)
    (h : w.host.config.capability.level = .L2 → Heard w) {call : Call} (hm : Moves P w call w') :
    w'.host.config.capability.level = .L2 → Heard w' := by
  intro hlevel
  cases hm with
  | stayed => exact h hlevel
  | toggled => exact (h hlevel).of_kept (.of_sessions_eq rfl) rfl
  | opened sessionId hfresh =>
      intro sid session hs record hr hin
      rw [OrderedMap.get_set] at hs
      split at hs
      · rename_i he
        subst he
        exact absurd (hsound.issuedSealed record hr sessionId hin) hfresh
      · exact h hlevel sid session hs record hr hin
  | closed sessionId host hnoted =>
      rw [hnoted.config] at hlevel
      intro sid later hl record hr hin keyId signerSeq hn
      obtain ⟨session, hs, hsame⟩ := hnoted.only sid later hl
      have hchain : World.chain (w.withHost host) = w.chain := by
        simp [World.chain, hnoted.config, hnoted.ledger]
      rw [hchain] at hr
      rw [OrderedMap.get_delete] at hs
      split at hs
      · cases hs
      · exact hsame.reached keyId signerSeq (h hlevel sid session hs record hr hin keyId signerSeq hn)
  | resumed capability options openSessions config host hcall hconfig hhost =>
      obtain ⟨hsound', hres⟩ := hsound.resumed (construct_fields hconfig).1 hhost
      intro sid later hl record hr hin keyId signerSeq hn
      rw [show World.chain (w.withHost host) = w.stored by simpa using hsound'.chain] at hr
      obtain ⟨-, base, hbase, hsame⟩ := hres.restored sid later hl
      exact hsame.reached keyId signerSeq ((restoredSession_restoredFrom hbase).reached record hr
        (hsound.stored_admissible record hr) hin keyId signerSeq hn)
  | delivered event adopted answered settled after hadopts hsettles hdelivers =>
      have hconfig := hdelivers.config.trans hsettles.config
      rw [hconfig] at hlevel
      exact delivers (by rw [hsettles.config]; exact hlevel) ((h hlevel).settles hsettles) hdelivers

end Heard

-- A delivery of an event that is a sealed attempt over again.
structure RepeatDelivery (P : Primitives) (w : World) (record : SealedRecord) (answers : Answers) (event : Json)
    (expected : Option JsString) : Prop where
  stored : record ∈ w.chain
  attempted : isAttempted record.event = true
  repeated : CanonicallyEqual P record.event event
  isOpen : ∃ sessionId, inSession record sessionId ∧ w.host.sessions.has sessionId = true ∧
    (expected = none ∨ expected = some sessionId)
  known : (chainKnown P answers w).2 = .ok true
  verified : w.host.config.capability.level = .L2 →
    AuditHost.level2Fields event ≠ none ∧ answers.verdict = .ok none

theorem sessionOf_open {P : Primitives} {host : AuditHost} {event : Json} {expected : Option JsString}
    {sessionId : JsString} (hnamed : event.get Fields.SESSION_ID = some (.str sessionId))
    (hopen : host.sessions.has sessionId = true) (hcarried : expected = none ∨ expected = some sessionId) :
    host.sessionOf P event expected = (host, .ok (some sessionId)) := by
  simp [AuditHost.sessionOf, hnamed, hopen, hcarried]

theorem admit_repeat {P : Primitives} {host : AuditHost} {event : Json} {expected : Option JsString}
    {sessionId : JsString} (hadm : Admissible event) (hkind : isAttempted event = true)
    (hnamed : event.get Fields.SESSION_ID = some (.str sessionId)) (hopen : host.sessions.has sessionId = true)
    (hcarried : expected = none ∨ expected = some sessionId) :
    host.admitEvent P event expected true = (host, .ok (.session sessionId)) := by
  simp [AuditHost.admitEvent, hadm.valid, hadm.safe, hkind, sessionOf_open hnamed hopen hcarried]

-- A number that was received raises no gap when it comes again.
theorem expectedNumber_of_reached {signerSeq highest : JsNum} (hlt : highest.lt signerSeq = false) :
    (AuditHost.expectedNumber (some highest)).lt signerSeq = false := by
  simp only [AuditHost.expectedNumber]
  cases highest <;> cases signerSeq <;> simp_all [JsNum.succ, JsNum.lt]
  rename_i a b
  linarith

theorem receive_reached {P : Primitives} {host : AuditHost} {event : Json} {sessionId keyId : JsString}
    {signerSeq : JsNum} {session : Session} (hopen : host.sessions.get sessionId = some session)
    (h : session.hasReached keyId signerSeq) : host.receive P event sessionId keyId signerSeq = host := by
  obtain ⟨highest, hget, hlt⟩ := h
  have hreceived : host.receivedNumber sessionId keyId = some highest := by
    simp [AuditHost.receivedNumber, hopen, hget]
  have hgap := expectedNumber_of_reached hlt
  simp [AuditHost.receive, AuditHost.gapFlagged, hreceived, hgap, hlt]

theorem verifySignature_repeat {P : Primitives} {answers : Answers} {host : AuditHost} {event : Json}
    {sessionId : JsString} {session : Session} (hopen : host.sessions.get sessionId = some session)
    (hverified : host.config.capability.level = .L2 →
      AuditHost.level2Fields event ≠ none ∧ answers.verdict = .ok none)
    (hheard : host.config.capability.level = .L2 → ∀ keyId signerSeq,
      numberOf event = some (keyId, signerSeq) → session.hasReached keyId signerSeq) :
    host.verifySignature P answers event sessionId = (host, .ok none) := by
  unfold AuditHost.verifySignature
  split
  · rfl
  · rename_i hlevel
    have hlevel : host.config.capability.level = .L2 := not_not.mp hlevel
    obtain ⟨hfields, hverdict⟩ := hverified hlevel
    cases hf : AuditHost.level2Fields event with
    | none => exact absurd hf hfields
    | some number =>
        obtain ⟨keyId, signerSeq⟩ := number
        have hreached := hheard hlevel keyId signerSeq (AuditHost.level2Fields_numberOf hf)
        simp [hverdict, receive_reached hopen hreached]

-- Settling a tail records no anomaly and changes no record.
theorem Settles.anomalies {P : Primitives} {w w' : World} {adopted : Option SealedRecord}
    (h : Settles P w adopted w') : w'.host.anomalies = w.host.anomalies := by
  cases h with
  | kept => rfl
  | confirmed => rfl
  | adopted record digest sessionId =>
      have hcommit : (w.host.committing record digest).anomalies = w.host.anomalies := by
        unfold AuditHost.committing AuditHost.noteSealed
        split <;> rfl
      simp only [AuditHost.adopting]
      split
      · obtain ⟨sessions, hs⟩ := (w.host.committing record digest).modifySession_fields sessionId
          (fun session => { session with accepted := addTo session.accepted (eventId record.event) })
        rw [AuditHost.acceptId, hs]
        exact hcommit
      · exact hcommit

theorem Settles.isOpen {P : Primitives} {w w' : World} {adopted : Option SealedRecord}
    (h : Settles P w adopted w') (sessionId : JsString) :
    w'.host.sessions.has sessionId = w.host.sessions.has sessionId := by
  cases h with
  | kept => rfl
  | confirmed => rfl
  | adopted record digest sid =>
      rw [(framed_adopting w.host record digest sid).isOpen]
      exact congrArg (fun sessions => OrderedMap.has sessions sessionId) (committing_fields w.host record digest).2.2.2.1

theorem Settles.stored {P : Primitives} {w w' : World} {adopted : Option SealedRecord}
    (h : Settles P w adopted w') : w'.stored = w.stored := by cases h <;> rfl

-- A repeat is answered from the record, and that is all it does.
theorem repeat_answered {P : Primitives} (hjcs : JcsFaithful P) {w : World} {committed pending : List SealedRecord}
    (hsound : Sound P w committed pending) (hheard : w.host.config.capability.level = .L2 → Heard w)
    {record : SealedRecord} {answers : Answers} {event : Json} {expected : Option JsString}
    (h : RepeatDelivery P w record answers event expected) :
    (handleAttempt P answers event expected false w).2 = .ok (acceptOf record) ∧
      (handleAttempt P answers event expected false w).1.stored = w.stored ∧
      (handleAttempt P answers event expected false w).1.chain = w.chain ∧
      (handleAttempt P answers event expected false w).1.host.anomalies = w.host.anomalies := by
  have hcanon := canon_eq_of_canonicallyEqual hjcs h.repeated
  have hadm : Admissible event :=
    (hsound.soundChain.admissible record h.stored).of_canonicallyEqual hjcs h.repeated
  obtain ⟨sessionId, hin, hopen, hcarried⟩ := h.isOpen
  have hkind : isAttempted event = true := by rw [← isAttempted_of_canon_eq hcanon]; exact h.attempted
  have hnamed := Json.get_str_of_canon_eq hcanon Fields.SESSION_ID sessionId hin
  have hknown := h.known
  cases hc : chainKnown P answers w with
  | mk settled result =>
      rw [hc] at hknown
      obtain rfl : result = .ok true := hknown
      obtain ⟨adopted, hsettles, -, hclear⟩ := chainKnown_settles hsound.stored_admissible hc
      obtain ⟨committed', pending', hsettled⟩ := hsound.settles hsettles
      -- With the chain known the record is committed, so the table answers for it.
      have hrecord : settled.host.sealedAttempts.get (eventId event) = some record := by
        have hmem := h.stored
        rw [← hsettles.chain, (hsettled.settled (hclear rfl)).2] at hmem
        exact (hsettled.tables.attempts _ record).mpr ⟨hmem, h.attempted, eventId_of_canon_eq hcanon⟩
      rw [← hsettles.isOpen] at hopen
      obtain ⟨session, hsession⟩ := (OrderedMap.has_eq_true _ _).mp hopen
      have hverify : settled.host.verifySignature P answers event sessionId = (settled.host, .ok none) := by
        refine verifySignature_repeat hsession (by rw [hsettles.config]; exact h.verified) ?_
        intro hlevel keyId signerSeq hn
        rw [hsettles.config] at hlevel
        refine ((hheard hlevel).settles hsettles) sessionId session hsession record ?_ hin keyId signerSeq ?_
        · rw [hsettles.chain]
          exact h.stored
        · rw [← hn]
          exact numberOf_of_canon_eq hcanon
      have hsame := sameBytes_eq_true.mpr h.repeated
      have heq : handleAttempt P answers event expected false w =
          (settled.withHost (settled.host.acceptId sessionId (eventId event)), .ok (acceptOf record)) := by
        simp [handleAttempt, hc, judgeAttempt, admit_repeat hadm hkind hnamed hopen hcarried, hverify,
          decideAttempt, hrecord, hsame]
      rw [heq]
      have hf := framed_acceptId settled.host sessionId (eventId event)
      refine ⟨rfl, hsettles.stored, ?_, ?_⟩
      · rw [← hsettles.chain]
        simp [World.chain, hf.config, hf.ledger]
      · rw [← hsettles.anomalies]
        obtain ⟨sessions, hs⟩ := settled.host.modifySession_fields sessionId
          (fun session => { session with accepted := addTo session.accepted (eventId event) })
        simp [AuditHost.acceptId, hs]

-- Exactly-once sealing under at-least-once delivery, in one world.
structure ExactlyOnce (P : Primitives) (w : World) : Prop where
  distinct : w.chain.Pairwise fun first second => ¬CanonicallyEqual P first.event second.event
  attemptIds : w.chain.Pairwise AttemptIdsDiffer
  repeats : ∀ record answers event expected, RepeatDelivery P w record answers event expected →
    (perform P w (.attempt answers event expected false)).2 =
        .attempt (.accept ⟨record.seq, record.record_hash, record.host_ts, record.previous_hash,
          record.host_signature, record.host_key_id, record.log_id⟩) ∧
      (perform P w (.attempt answers event expected false)).1.stored = w.stored ∧
      (perform P w (.attempt answers event expected false)).1.chain = w.chain ∧
      (perform P w (.attempt answers event expected false)).1.host.anomalies = w.host.anomalies

theorem run_heard {P : Primitives} (config : HostConfig) (calls : List Call) :
    (run P (World.new config) calls).host.config.capability.level = .L2 → Heard (run P (World.new config) calls) :=
  (run_induction (I := fun w => w.host.config.capability.level = .L2 → Heard w) (fun _ _ => True)
    (fun _ _ _ _ _ hsound _ hm _ hI => Heard.moves hsound hI hm) (sound_new P config)
    (fun _ sessionId session h => by simp [World.new, AuditHost.new] at h) calls fun _ _ _ _ => trivial).1

theorem run_distinct {P : Primitives} (hjcs : JcsFaithful P) (config : HostConfig) (calls : List Call) :
    (run P (World.new config) calls).chain.Pairwise
      fun first second => ¬CanonicallyEqual P first.event second.event := by
  have hstart : (World.new config).chain = [] := by simpa using (sound_new P config).chain
  rw [← Each.iff_pairwise]
  refine (run_induction (P := P) (fun _ _ => True)
    (I := fun w => Each (fun before record => ∀ other ∈ before, ¬CanonicallyEqual P other.event record.event) w.chain)
    ?_ (sound_new P config) (by rw [hstart]; exact Each.nil) calls fun _ _ _ _ => trivial).1
  intro w committed pending call w' hsound _ hm _ hI
  refine each_moves hsound hI hm ?_
  intro adopted settled record _ hsettles hextends
  obtain ⟨_, _, hsettled⟩ := hsound.settles hsettles
  exact hextends.canonically_new hjcs hsettled

-- After any calls, with any failures and restarts, no event is sealed twice, no id as
-- an attempt twice, and a repeat of a sealed attempt taken up in time on its own
-- session is answered from its record.
theorem sealed_exactly_once (P : Primitives) (hjcs : JcsFaithful P) (config : HostConfig) (calls : List Call) :
    ExactlyOnce P (run P (World.new config) calls) := by
  obtain ⟨_, _, hsound⟩ := run_sound (sound_new P config) calls
  refine ⟨run_distinct hjcs config calls, hsound.soundChain.attemptIds, ?_⟩
  intro record answers event expected h
  obtain ⟨hreply, hstored, hchain, hanomalies⟩ := repeat_answered hjcs hsound (run_heard config calls) h
  rw [acceptOf_together (hsound.soundChain.countersigned record h.stored)] at hreply
  simp only [perform, World.replying]
  cases hr : handleAttempt P answers event expected false (run P (World.new config) calls) with
  | mk after result =>
      rw [hr] at hreply hstored hchain hanomalies
      obtain rfl := hreply
      exact ⟨rfl, hstored, hchain, hanomalies⟩

theorem landedRun_exactlyOnce :
    ExactlyOnce Reference.primitives (run Reference.primitives (World.new (Reference.tenant .L1)) landedRun) :=
  sealed_exactly_once Reference.primitives Reference.primitives_faithful (Reference.tenant .L1) landedRun

-- A repeat whose deadline has passed when it is taken up is not answered from the record.
theorem late_repeat_unavailable : ¬∀ (P : Primitives), JcsFaithful P → ∀ (config : HostConfig) (calls : List Call)
    (record : SealedRecord) (answers : Answers) (event : Json) (expected : Option JsString) (expired : Bool),
    RepeatDelivery P (run P (World.new config) calls) record answers event expected →
    (perform P (run P (World.new config) calls) (.attempt answers event expected expired)).2 =
      .attempt (.accept ⟨record.seq, record.record_hash, record.host_ts, record.previous_hash,
        record.host_signature, record.host_key_id, record.log_id⟩) := by
  intro h
  have hseen : (run Reference.primitives (World.new (Reference.tenant .L1)) landedRun).chain.map
      (fun record => (Reference.textOf record.event Fields.SESSION_ID, isAttempted record.event,
        sameBytes Reference.primitives record.event
          (Reference.toolEvent Reference.SESSION_A Reference.EVENT_1 Outcome.ATTEMPTED []))) =
      [(some Reference.SESSION_A, true, .ok true)] := by decide +kernel
  obtain ⟨record, rest, hchain, hrecord, -⟩ := List.map_eq_cons_iff.mp hseen
  simp only [Prod.mk.injEq] at hrecord
  have hworld : (run Reference.primitives (World.new (Reference.tenant .L1)) landedRun).host.sessions.has
        Reference.SESSION_A = true ∧
      (run Reference.primitives (World.new (Reference.tenant .L1)) landedRun).host.tailUncertain = false ∧
      (run Reference.primitives (World.new (Reference.tenant .L1)) landedRun).host.config.capability.level = .L1 := by
    decide +kernel
  have hlate := h Reference.primitives Reference.primitives_faithful (Reference.tenant .L1) landedRun record
    (Reference.answering .reads .stores)
    (Reference.toolEvent Reference.SESSION_A Reference.EVENT_1 Outcome.ATTEMPTED []) none true
    { stored := by rw [hchain]; simp
      attempted := hrecord.2.1
      repeated := sameBytes_eq_true.mp hrecord.2.2
      isOpen := ⟨Reference.SESSION_A, Reference.textOf_eq_some.mp hrecord.1, hworld.1, Or.inl rfl⟩
      known := by simp [chainKnown, hworld.2.1]
      verified := fun hlevel => by rw [hworld.2.2] at hlevel; cases hlevel }
  simp [perform, handleAttempt, World.replying] at hlate

end AuditableMcp
