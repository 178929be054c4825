import AuditableMcp.Host.Coverage
import AuditableMcp.Reference.Events
import AuditableMcp.Reference.Primitives

namespace AuditableMcp

theorem signedNumber_eq {host : AuditHost} (h : host.config.capability.level = .L2) (event : Json) :
    host.signedNumber event = numberOf event := by
  simp [AuditHost.signedNumber, h, numberOf]

theorem decide_sessions {host : AuditHost} (hlevel : host.config.capability.level = .L2) {event : Json}
    {keyId : JsString} {signerSeq : JsNum} (hn : numberOf event = some (keyId, signerSeq))
    {sessionId : JsString} {later : Session}
    (h : (host.decide event sessionId).sessions.get sessionId = some later) :
    later.hasDecided keyId signerSeq := by
  rw [← signedNumber_eq hlevel] at hn
  simp only [AuditHost.decide, hn] at h
  rw [host.get_modifySession, if_pos rfl] at h
  obtain ⟨session, -, rfl⟩ := Option.map_eq_some_iff.mp h
  exact (hasDecided_decideNumber keyId keyId signerSeq signerSeq session).mpr (Or.inr ⟨rfl, rfl⟩)

-- Two records that carry one number of one key in one session.
def SameNumber (first second : SealedRecord) : Prop :=
  ∃ keyId sessionId signerSeq, inSession first sessionId ∧ inSession second sessionId ∧
    numberOf first.event = some (keyId, signerSeq) ∧ numberOf second.event = some (keyId, signerSeq)

theorem numbers_tracked (P : Primitives) : Tracked P (fun config => config.capability.level = .L2)
    (fun session record => ∀ keyId signerSeq, numberOf record.event = some (keyId, signerSeq) →
      session.hasDecided keyId signerSeq)
    (fun first second => ¬SameNumber first second) where
  keeps := fun before after record hkept h keyId signerSeq hn => hkept.decided keyId signerSeq (h keyId signerSeq hn)
  seals := by
    intro host record digest sessionId later hlevel hl keyId signerSeq hn
    have hconfig := (committing_fields host record digest).1
    simp only [AuditHost.sealing] at hl
    split at hl
    · obtain ⟨session, hs, hk⟩ := SessionsKept.acceptId _ _ _ sessionId later hl
      exact hk.decided keyId signerSeq (decide_sessions (by rw [hconfig]; exact hlevel) hn hs)
    · obtain ⟨session, hs, hk⟩ := SessionsKept.setTerminal _ _ _ _ sessionId later hl
      exact hk.decided keyId signerSeq (decide_sessions (by rw [hconfig]; exact hlevel) hn hs)
  restores := fun sessionId records session h record hr hadm hin =>
    (restoredSession_restoredFrom h).decided record hr hadm hin
  clears := by
    intro host sessionId session record hlevel hclear other hother
    rintro ⟨keyId, sid, signerSeq, hfirst, hsecond, hn, hn'⟩
    obtain rfl := inSession_unique hclear.named hsecond
    rw [← signedNumber_eq hlevel] at hn'
    exact hclear.undecided keyId signerSeq hn' (hother hfirst keyId signerSeq hn)

-- Two records of one operation of which the first ends it.
def AfterTerminal (first second : SealedRecord) : Prop :=
  (∃ sessionId, inSession first sessionId ∧ inSession second sessionId) ∧
    eventId first.event = eventId second.event ∧ isAttempted first.event = false

theorem terminals_tracked (P : Primitives) : Tracked P (fun _ => True)
    (fun session record => isAttempted record.event = false →
      (session.terminal.get (eventId record.event)).isSome = true)
    (fun first second => ¬AfterTerminal first second) where
  keeps := fun before after record hkept h hkind => hkept.terminal _ (h hkind)
  seals := by
    intro host record digest sessionId later _ hl hkind
    simp only [AuditHost.sealing, hkind, Bool.false_eq_true, ite_false] at hl
    rw [AuditHost.setTerminal, AuditHost.get_modifySession, if_pos rfl] at hl
    obtain ⟨session, -, rfl⟩ := Option.map_eq_some_iff.mp hl
    simp
  restores := fun sessionId records session h record hr hadm hin =>
    (restoredSession_restoredFrom h).terminal record hr hadm hin
  clears := by
    intro host sessionId session record _ hclear other hother
    rintro ⟨⟨sid, hfirst, hsecond⟩, hid, hkind⟩
    obtain rfl := inSession_unique hclear.named hsecond
    have hsome := hother hfirst hkind
    rw [hid, hclear.fresh] at hsome
    cases hsome

-- A call that takes over a landed record into a session that is open.
def Call.AdoptsIntoOpen (w : World) (call : Call) (record : SealedRecord) : Prop :=
  call.adopts w = some record ∧
    ∃ sessionId, inSession record sessionId ∧ w.host.sessions.has sessionId = true

theorem Moves.level {P : Primitives} {w w' : World} {committed pending : List SealedRecord} {call : Call}
    (hsound : Sound P w committed pending) (h : Moves P w call w')
    (hcall : ∀ capability options openSessions, call = .resume capability options openSessions →
      capability.level = some .L2)
    (hlevel : w.host.config.capability.level = .L2) : w'.host.config.capability.level = .L2 := by
  cases h with
  | stayed => exact hlevel
  | opened => exact hlevel
  | closed sessionId host hnoted => rw [hnoted.config]; exact hlevel
  | toggled => exact hlevel
  | resumed capability options openSessions config host hresume hconfig hhost =>
      obtain ⟨hrepo, hcapability⟩ := construct_fields hconfig
      rw [(hsound.resumed hrepo hhost).2.config, hcapability, hcall capability options openSessions hresume]
      rfl
  | delivered event adopted answered settled after hadopts hsettles hdelivers =>
      rw [hdelivers.config, hsettles.config]
      exact hlevel

-- Two attempts and an outcome, three numbers, and a tail nobody has to read again.
def numberedRun : List Call :=
  let answers := Reference.answering .repositoryError .stores
  let event := fun id outcome n =>
    Reference.toolEvent Reference.SESSION_A id outcome (Reference.signedUnder "tool-1" n "c2lnbmVk")
  [.openSession Reference.SESSION_A,
   .attempt answers (event Reference.EVENT_1 Outcome.ATTEMPTED 0) none false,
   .attempt answers (event Reference.EVENT_2 Outcome.ATTEMPTED 1) none false,
   .outcome answers (event Reference.EVENT_1 Outcome.SUCCESS 2) none]

theorem numberedRun_adopts (w : World) : ∀ call ∈ numberedRun, ∀ record, ¬call.AdoptsIntoOpen w record := by
  intro call hc record h
  simp only [numberedRun, List.mem_cons, List.not_mem_nil, or_false] at hc
  rcases hc with rfl | rfl | rfl | rfl <;> exact absurd h.1 (by simp [Call.adopts, Reference.answering])

-- The session, key and number a record was sealed under.
def sealedNumber (record : SealedRecord) : Option (JsString × JsString × JsNum) :=
  (Reference.textOf record.event Fields.SESSION_ID).bind fun sessionId =>
    (numberOf record.event).map fun number => (sessionId, number)

theorem sameNumber_of_sealedNumber {first second : SealedRecord} {number : JsString × JsString × JsNum}
    (hf : sealedNumber first = some number) (hs : sealedNumber second = some number) : SameNumber first second := by
  obtain ⟨sessionId, hsession, hnumber⟩ := Option.bind_eq_some_iff.mp hf
  obtain ⟨signed, hsigned, rfl⟩ := Option.map_eq_some_iff.mp hnumber
  obtain ⟨sessionId', hsession', hnumber'⟩ := Option.bind_eq_some_iff.mp hs
  obtain ⟨signed', hsigned', hsame⟩ := Option.map_eq_some_iff.mp hnumber'
  obtain ⟨rfl, rfl⟩ := Prod.mk.inj hsame
  exact ⟨signed'.1, sessionId', signed'.2, Reference.textOf_eq_some.mp hsession, Reference.textOf_eq_some.mp hsession',
    hsigned, hsigned'⟩

-- An attempt that landed although its append threw, and another under the same number.
def attemptAfterLanded : List Call :=
  let signed := Reference.signedUnder "tool-1" 0 "c2lnbmVk"
  [.openSession Reference.SESSION_A,
   .attempt (Reference.answering .reads .storesAndThrows)
     (Reference.toolEvent Reference.SESSION_A Reference.EVENT_1 Outcome.ATTEMPTED signed) none false,
   .attempt (Reference.answering .reads .stores)
     (Reference.toolEvent Reference.SESSION_A Reference.EVENT_2 Outcome.ATTEMPTED signed) none false]

-- A success that landed although its append threw, and the failure reported after it.
def outcomeAfterLanded : List Call :=
  let event := fun outcome => Reference.toolEvent Reference.SESSION_A Reference.EVENT_1 outcome []
  [.openSession Reference.SESSION_A,
   .attempt (Reference.answering .reads .stores) (event Outcome.ATTEMPTED) none false,
   .outcome (Reference.answering .reads .storesAndThrows) (event Outcome.SUCCESS) none,
   .outcome (Reference.answering .reads .stores) (event Outcome.FAILED) none]

-- What `AfterTerminal` reads of a record.
def sealedOperation (record : SealedRecord) : Option JsString × JsString × Bool :=
  (Reference.textOf record.event Fields.SESSION_ID, eventId record.event, isAttempted record.event)

end AuditableMcp
