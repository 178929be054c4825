import AuditableMcp.Host.Calls

namespace AuditableMcp

-- An event the host may seal: valid, and inside the canonicalization domain.
structure Admissible (event : Json) : Prop where
  valid : firstValidationError (some event) = none
  safe : hasUnsafeNumber event = false

theorem Admissible.current {event : Json} (h : Admissible event) : CurrentEvent event :=
  currentEvent_of_valid h.valid

theorem Admissible.canonicalizable {event : Json} (h : Admissible event) : Canonicalizable event :=
  ⟨h.safe, h.current.wellFormed⟩

theorem Admissible.digestOf_ok {event : Json} (h : Admissible event) (P : Primitives) :
    digestOf P event = .ok (sha256Hex P (P.jcsCanonicalize event)) := by
  simp [digestOf, canonicalize_of_canonicalizable P h.canonicalizable, bind, Except.bind, pure, Except.pure]

theorem Admissible.eventId_eq {event : Json} (h : Admissible event) :
    event.get Fields.ID = some (.str (eventId event)) := by
  obtain ⟨id, hid⟩ := h.current.id
  simp [eventId, hid]

def Session.hasDecided (session : Session) (keyId : JsString) (signerSeq : JsNum) : Prop :=
  signerSeq ∈ (session.decided.get keyId).getD []

-- The highest number received under a key is not below this one.
def Session.hasReached (session : Session) (keyId : JsString) (signerSeq : JsNum) : Prop :=
  ∃ highest, session.received.get keyId = some highest ∧ highest.lt signerSeq = false

-- A session that at most has more numbers decided, or higher ones received.
structure SameSession (before after : Session) : Prop where
  accepted : after.accepted = before.accepted
  terminal : after.terminal = before.terminal
  decided : ∀ keyId signerSeq, before.hasDecided keyId signerSeq → after.hasDecided keyId signerSeq
  reached : ∀ keyId signerSeq, before.hasReached keyId signerSeq → after.hasReached keyId signerSeq

theorem SameSession.refl (session : Session) : SameSession session session :=
  ⟨rfl, rfl, fun _ _ h => h, fun _ _ h => h⟩

theorem SameSession.trans {a b c : Session} (hab : SameSession a b) (hbc : SameSession b c) : SameSession a c :=
  ⟨by rw [hbc.accepted, hab.accepted], by rw [hbc.terminal, hab.terminal],
    fun keyId signerSeq h => hbc.decided keyId signerSeq (hab.decided keyId signerSeq h),
    fun keyId signerSeq h => hbc.reached keyId signerSeq (hab.reached keyId signerSeq h)⟩

-- What refusals and checks may do to a host: the chain state, the lookup tables and
-- the open sessions stay, and no decision is forgotten.
structure Noted (before after : AuditHost) : Prop where
  config : after.config = before.config
  ledger : after.ledger = before.ledger
  issued : after.issued = before.issued
  tailUncertain : after.tailUncertain = before.tailUncertain
  sealedAttempts : after.sealedAttempts = before.sealedAttempts
  sealedDigests : after.sealedDigests = before.sealedDigests
  kept : ∀ sessionId session, before.sessions.get sessionId = some session →
    ∃ later, after.sessions.get sessionId = some later ∧ SameSession session later
  only : ∀ sessionId later, after.sessions.get sessionId = some later →
    ∃ session, before.sessions.get sessionId = some session ∧ SameSession session later

namespace AuditHost

theorem get_modifySession (host : AuditHost) (sessionId other : JsString) (change : Session → Session) :
    (host.modifySession sessionId change).sessions.get other =
      if sessionId = other then (host.sessions.get sessionId).map change else host.sessions.get other := by
  unfold modifySession
  cases h : host.sessions.get sessionId with
  | none =>
      by_cases ho : sessionId = other
      · subst ho
        simp [h]
      · simp [ho]
  | some session => simp [OrderedMap.get_set]

theorem gapFlagged_sessions (P : Primitives) (host : AuditHost) (event : Json) (received : Option JsNum)
    (signerSeq : JsNum) : (host.gapFlagged P event received signerSeq).sessions = host.sessions := by
  unfold gapFlagged
  split <;> rfl

theorem modifySession_fields (host : AuditHost) (sessionId : JsString) (change : Session → Session) :
    ∃ sessions, host.modifySession sessionId change = { host with sessions } := by
  unfold modifySession
  split
  · exact ⟨_, rfl⟩
  · exact ⟨host.sessions, rfl⟩

end AuditHost

namespace Noted

theorem refl (host : AuditHost) : Noted host host :=
  ⟨rfl, rfl, rfl, rfl, rfl, rfl, fun _ s h => ⟨s, h, .refl s⟩, fun _ s h => ⟨s, h, .refl s⟩⟩

theorem trans {a b c : AuditHost} (hab : Noted a b) (hbc : Noted b c) : Noted a c where
  config := by rw [hbc.config, hab.config]
  ledger := by rw [hbc.ledger, hab.ledger]
  issued := by rw [hbc.issued, hab.issued]
  tailUncertain := by rw [hbc.tailUncertain, hab.tailUncertain]
  sealedAttempts := by rw [hbc.sealedAttempts, hab.sealedAttempts]
  sealedDigests := by rw [hbc.sealedDigests, hab.sealedDigests]
  kept := by
    intro sessionId session h
    obtain ⟨middle, hm, hsame⟩ := hab.kept sessionId session h
    obtain ⟨later, hl, hsame'⟩ := hbc.kept sessionId middle hm
    exact ⟨later, hl, hsame.trans hsame'⟩
  only := by
    intro sessionId later h
    obtain ⟨middle, hm, hsame'⟩ := hbc.only sessionId later h
    obtain ⟨session, hs, hsame⟩ := hab.only sessionId middle hm
    exact ⟨session, hs, hsame.trans hsame'⟩

theorem flag (host : AuditHost) (id : JsString) (kind : Tier1Code) (detail : AnomalyDetail) :
    Noted host (host.flag id kind detail) :=
  ⟨rfl, rfl, rfl, rfl, rfl, rfl, fun _ s h => ⟨s, h, .refl s⟩, fun _ s h => ⟨s, h, .refl s⟩⟩

theorem rejectId (host : AuditHost) (id : JsString) : Noted host (host.rejectId id) :=
  ⟨rfl, rfl, rfl, rfl, rfl, rfl, fun _ s h => ⟨s, h, .refl s⟩, fun _ s h => ⟨s, h, .refl s⟩⟩

theorem modifySession (host : AuditHost) (sessionId : JsString) (change : Session → Session)
    (hchange : ∀ session, host.sessions.get sessionId = some session → SameSession session (change session)) :
    Noted host (host.modifySession sessionId change) := by
  obtain ⟨sessions, hs⟩ := host.modifySession_fields sessionId change
  have hget := fun other => host.get_modifySession sessionId other change
  refine ⟨by rw [hs], by rw [hs], by rw [hs], by rw [hs], by rw [hs], by rw [hs], ?_, ?_⟩
  · intro other session h
    by_cases ho : sessionId = other
    · subst ho
      exact ⟨change session, by simp [hget, h], hchange session h⟩
    · exact ⟨session, by simp [hget, ho, h], .refl session⟩
  · intro other later h
    rw [hget] at h
    by_cases ho : sessionId = other
    · subst ho
      obtain ⟨session, hsess, rfl⟩ : ∃ s, host.sessions.get sessionId = some s ∧ change s = later := by
        simpa using h
      exact ⟨session, hsess, hchange session hsess⟩
    · exact ⟨later, by simpa [ho] using h, .refl later⟩

end Noted

theorem hasDecided_decideNumber (keyId other : JsString) (signerSeq n : JsNum) (session : Session) :
    (AuditHost.decideNumber keyId signerSeq session).hasDecided other n ↔
      session.hasDecided other n ∨ (other = keyId ∧ n = signerSeq) := by
  by_cases hk : keyId = other
  · subst hk
    simp [AuditHost.decideNumber, Session.hasDecided]
  · simp [AuditHost.decideNumber, Session.hasDecided, OrderedMap.get_set, hk, Ne.symm hk]

theorem sameSession_decideNumber (keyId : JsString) (signerSeq : JsNum) (session : Session) :
    SameSession session (AuditHost.decideNumber keyId signerSeq session) :=
  ⟨rfl, rfl, fun other n h => (hasDecided_decideNumber keyId other signerSeq n session).mpr (Or.inl h),
    fun _ _ h => h⟩

theorem JsNum.lt_self (n : JsNum) : n.lt n = false := by
  cases n <;> simp [JsNum.lt]

-- Whatever one number does not reach below, a higher one does not.
theorem JsNum.not_lt_of_lt {low high n : JsNum} (hlow : low.lt n = false) (h : low.lt high = true) :
    high.lt n = false := by
  cases low <;> cases high <;> cases n <;> simp_all [JsNum.lt]
  rename_i a b c
  exact le_trans hlow h.le

theorem JsNum.not_lt_max {m value n : JsNum} (h : m.lt n = false) : (m.max value).lt n = false := by
  unfold JsNum.max
  split
  · rfl
  · rfl
  · split
    · rename_i hlt
      exact JsNum.not_lt_of_lt h hlt
    · exact h

theorem JsNum.not_max_lt (m value : JsNum) : (m.max value).lt value = false := by
  unfold JsNum.max
  split
  · rfl
  · rfl
  · split
    · exact JsNum.lt_self value
    · rename_i h
      simpa using h

-- A number is received when it is the first of its key or above the highest so far.
def receiveNumber (keyId : JsString) (signerSeq : JsNum) (session : Session) : Session :=
  { session with received := session.received.set keyId signerSeq }

theorem sameSession_receiveNumber {keyId : JsString} {signerSeq : JsNum} {session : Session}
    (h : session.received.get keyId = none ∨ (session.received.get keyId).any (·.lt signerSeq) = true) :
    SameSession session (receiveNumber keyId signerSeq session) := by
  refine ⟨rfl, rfl, fun _ _ hd => hd, ?_⟩
  rintro other n ⟨highest, hget, hlt⟩
  by_cases hk : keyId = other
  · subst hk
    refine ⟨signerSeq, by simp [receiveNumber], ?_⟩
    rcases h with hnone | hany
    · rw [hnone] at hget
      cases hget
    · rw [hget] at hany
      exact JsNum.not_lt_of_lt hlt (by simpa using hany)
  · exact ⟨highest, by simp [receiveNumber, OrderedMap.get_set, hk, hget], hlt⟩

namespace Noted

theorem decide (host : AuditHost) (event : Json) (sessionId : JsString) :
    Noted host (host.decide event sessionId) := by
  unfold AuditHost.decide
  split
  · exact modifySession host sessionId _ fun session _ => sameSession_decideNumber _ _ session
  · exact refl host

theorem gapFlagged (P : Primitives) (host : AuditHost) (event : Json) (received : Option JsNum) (signerSeq : JsNum) :
    Noted host (host.gapFlagged P event received signerSeq) := by
  unfold AuditHost.gapFlagged
  split
  · exact flag host _ _ _
  · exact refl host

theorem receive (P : Primitives) (host : AuditHost) (event : Json) (sessionId keyId : JsString)
    (signerSeq : JsNum) : Noted host (host.receive P event sessionId keyId signerSeq) := by
  unfold AuditHost.receive
  have hflagged := gapFlagged P host event (host.receivedNumber sessionId keyId) signerSeq
  dsimp only
  split
  · rename_i hhigher
    refine hflagged.trans (modifySession _ sessionId _ fun session hs => sameSession_receiveNumber ?_)
    have hsession : host.sessions.get sessionId = some session := by
      rwa [AuditHost.gapFlagged_sessions] at hs
    simpa [AuditHost.receivedNumber, hsession] using hhigher
  · exact hflagged

theorem checkReplay (P : Primitives) (host : AuditHost) (event : Json) (sessionId : JsString) :
    Noted host (host.checkReplay P event sessionId).1 := by
  unfold AuditHost.checkReplay
  split
  · split
    · exact flag host _ _ _
    · exact refl host
  · exact refl host

theorem verifySignature (P : Primitives) (answers : Answers) (host : AuditHost) (event : Json)
    (sessionId : JsString) : Noted host (host.verifySignature P answers event sessionId).1 := by
  unfold AuditHost.verifySignature
  split
  · exact refl host
  · split
    · exact flag host _ _ _
    · split
      · exact refl host
      · exact flag host _ _ _
      · exact receive P host event sessionId _ _

theorem sessionOf (P : Primitives) (host : AuditHost) (event : Json) (expected : Option JsString) :
    Noted host (host.sessionOf P event expected).1 := by
  unfold AuditHost.sessionOf
  dsimp only
  split
  · split
    · exact refl host
    · exact flag host _ _ _
  · split
    · exact refl host
    · exact flag host _ _ _

theorem admitEvent (P : Primitives) (host : AuditHost) (event : Json) (expected : Option JsString) (attempt : Bool) :
    Noted host (host.admitEvent P event expected attempt).1 := by
  unfold AuditHost.admitEvent
  split
  · split
    · exact refl host
    · exact flag host _ _ _
  · split
    · exact flag host _ _ _
    · split
      · exact flag host _ _ _
      · have hs := sessionOf P host event expected
        cases h : host.sessionOf P event expected with
        | mk later result =>
            rw [h] at hs
            rcases result with e | (_ | id) <;> exact hs

theorem refuseAttempt (host : AuditHost) (event : Json) (sessionId detail : JsString) :
    Noted host (host.refuseAttempt event sessionId detail) :=
  ((rejectId host _).trans (decide _ event sessionId)).trans (flag _ _ _ _)

end Noted

namespace AuditHost

-- The session an admitted event is decided in.
structure Admits (host : AuditHost) (event : Json) (expected : Option JsString) (attempt : Bool)
    (sessionId : JsString) : Prop where
  admissible : Admissible event
  attempted : isAttempted event = attempt
  named : event.get Fields.SESSION_ID = some (.str sessionId)
  isOpen : host.sessions.has sessionId = true
  carried : expected = none ∨ expected = some sessionId

theorem sessionOf_some {P : Primitives} {host later : AuditHost} {event : Json} {expected : Option JsString}
    {id : JsString} (h : host.sessionOf P event expected = (later, .ok (some id))) :
    later = host ∧ event.get Fields.SESSION_ID = some (.str id) ∧ host.sessions.has id = true ∧
      (expected = none ∨ expected = some id) := by
  unfold sessionOf at h
  dsimp only at h
  split at h
  · rename_i opened hopen
    split at h
    · rename_i hcarried
      simp only [Prod.mk.injEq, Except.ok.injEq, Option.some.injEq] at h
      obtain ⟨rfl, rfl⟩ := h
      split at hopen
      · rename_i text htext
        split at hopen
        · rename_i hhas
          obtain rfl : text = opened := Option.some.inj hopen
          exact ⟨rfl, htext, hhas, hcarried⟩
        · cases hopen
      · cases hopen
    · simp at h
  · split at h <;> simp at h

theorem level2Fields_numberOf {event : Json} {keyId : JsString} {signerSeq : JsNum}
    (h : level2Fields event = some (keyId, signerSeq)) : numberOf event = some (keyId, signerSeq) := by
  unfold level2Fields at h
  unfold numberOf
  split at h
  · rename_i key number hkey hnumber
    split at h
    · simpa [hkey, hnumber] using h
    · cases h
  · cases h

-- Once its signature verified, an event's number is on its session's books as received.
theorem verifySignature_heard {P : Primitives} {answers : Answers} {host later : AuditHost} {event : Json}
    {sessionId : JsString} {session : Session}
    (h : host.verifySignature P answers event sessionId = (later, .ok none))
    (hlevel : host.config.capability.level = .L2) (hopen : later.sessions.get sessionId = some session) :
    ∀ keyId signerSeq, numberOf event = some (keyId, signerSeq) → session.hasReached keyId signerSeq := by
  intro keyId signerSeq hn
  unfold verifySignature at h
  rw [if_neg (by simp [hlevel])] at h
  split at h
  · simp at h
  · rename_i key number hfields
    obtain ⟨rfl, rfl⟩ : key = keyId ∧ number = signerSeq := by
      simpa [level2Fields_numberOf hfields] using hn
    split at h
    · simp at h
    · simp at h
    · simp only [Prod.mk.injEq, and_true] at h
      subst h
      unfold receive at hopen
      dsimp only at hopen
      split at hopen
      · rw [get_modifySession, if_pos rfl] at hopen
        obtain ⟨before, -, rfl⟩ := Option.map_eq_some_iff.mp hopen
        exact ⟨number, by simp, JsNum.lt_self number⟩
      · rename_i hnot
        rw [gapFlagged_sessions] at hopen
        simp only [receivedNumber, hopen, Option.bind_some, not_or, Bool.not_eq_true] at hnot
        cases hr : session.received.get key with
        | none => exact absurd hr hnot.1
        | some highest => exact ⟨highest, hr, by simpa [hr] using hnot.2⟩

theorem admitEvent_session {P : Primitives} {host later : AuditHost} {event : Json} {expected : Option JsString}
    {attempt : Bool} {sessionId : JsString}
    (h : host.admitEvent P event expected attempt = (later, .ok (.session sessionId))) :
    later = host ∧ host.Admits event expected attempt sessionId := by
  unfold admitEvent at h
  split at h
  · split at h <;> simp at h
  · rename_i hvalid
    split at h
    · simp at h
    · rename_i hsafe
      split at h
      · simp at h
      · rename_i hkind
        cases hs : host.sessionOf P event expected with
        | mk after result =>
            rcases result with e | (_ | id)
            · simp [hs] at h
            · simp [hs] at h
            · simp only [hs, Prod.mk.injEq, Except.ok.injEq, Admission.session.injEq] at h
              obtain ⟨rfl, rfl⟩ := h
              obtain ⟨rfl, hnamed, hopen, hcarried⟩ := sessionOf_some hs
              exact ⟨rfl, ⟨hvalid, by simpa using hsafe⟩, by simpa using hkind, hnamed, hopen, hcarried⟩

end AuditHost

end AuditableMcp
