import AuditableMcp.Host.Steps

namespace AuditableMcp

-- What stands when the host goes on to seal an event: every check of its kind passed.
structure Cleared (P : Primitives) (host : AuditHost) (event : Json) (sessionId : JsString)
    (session : Session) : Prop where
  known : host.config.repository = true → host.tailUncertain = false
  admissible : Admissible event
  named : event.get Fields.SESSION_ID = some (.str sessionId)
  isOpen : host.sessions.get sessionId = some session
  fresh : session.terminal.get (eventId event) = none
  undecided : ∀ keyId signerSeq, host.signedNumber event = some (keyId, signerSeq) →
    ¬session.hasDecided keyId signerSeq
  heard : host.config.capability.level = .L2 →
    ∀ keyId signerSeq, numberOf event = some (keyId, signerSeq) → session.hasReached keyId signerSeq
  attempt : isAttempted event = true → host.sealedAttempts.get (eventId event) = none
  unsealed : isAttempted event = false → ∀ digest, digestOf P event = .ok digest → digest ∉ host.sealedDigests
  outcome : isAttempted event = false →
    eventId event ∈ session.accepted ∨ Json.isText (event.get Fields.OUTCOME) Outcome.ABORTED = true

-- The host once it sealed a record and recorded the decision.
def AuditHost.sealing (host : AuditHost) (record : SealedRecord) (digest sessionId : JsString) : AuditHost :=
  let host := (host.committing record digest).decide record.event sessionId
  if isAttempted record.event then host.acceptId sessionId (eventId record.event)
  else host.setTerminal sessionId (eventId record.event) digest

-- What delivering an event does once the chain is known; the index is the record an
-- answer is made from.
inductive Delivers (P : Primitives) (event : Json) (w : World) : World → Option SealedRecord → Prop where
  | noted (host : AuditHost) (hnoted : Noted w.host host) : Delivers P event w (w.withHost host) none
  | repeated (host : AuditHost) (sessionId : JsString) (record : SealedRecord) (hnoted : Noted w.host host)
      (hadm : Admissible event) (hnamed : event.get Fields.SESSION_ID = some (.str sessionId))
      (hrecord : host.sealedAttempts.get (eventId event) = some record)
      (hsame : sameBytes P record.event event = .ok true) :
      Delivers P event w (w.withHost (host.acceptId sessionId (eventId event))) (some record)
  | lost (host : AuditHost) (hnoted : Noted w.host host) (hrepo : host.config.repository = true) :
      Delivers P event w ⟨{ host with tailUncertain := true }, w.stored⟩ none
  | landed (host : AuditHost) (sessionId : JsString) (session : Session) (record : SealedRecord)
      (hnoted : Noted w.host host) (hclear : Cleared P host event sessionId session)
      (hrepo : host.config.repository = true) (hcont : Continues P host.ledger event record) :
      Delivers P event w ⟨{ host with tailUncertain := true }, w.stored ++ [record]⟩ none
  | sealed (host : AuditHost) (sessionId : JsString) (session : Session) (record : SealedRecord)
      (digest : JsString) (hnoted : Noted w.host host) (hclear : Cleared P host event sessionId session)
      (hcont : Continues P host.ledger event record) (hdigest : digestOf P event = .ok digest) :
      Delivers P event w ⟨host.sealing record digest sessionId, w.keeping record⟩ (some record)

-- An accept is made from the record the delivery answers from.
def Answered (answered : Option SealedRecord) (result : Except JsError AttemptResponse) : Prop :=
  ∀ response, result = .ok (.accept response) →
    ∃ record, answered = some record ∧ acceptOf record = .accept response

def AttemptDelivered (P : Primitives) (event : Json) (w : World) (out : World × Except JsError AttemptResponse) :
    Prop := ∃ answered, Delivers P event w out.1 answered ∧ Answered answered out.2

def OutcomeDelivered (P : Primitives) (event : Json) (w : World)
    (out : World × Except JsError OutcomeDisposition) : Prop := ∃ answered, Delivers P event w out.1 answered

theorem acceptOf_eq (record : SealedRecord) : ∃ response, acceptOf record = .accept response := by
  unfold acceptOf accept
  split <;> exact ⟨_, rfl⟩

theorem keeping_withHost {w : World} {host : AuditHost} (hnoted : Noted w.host host) (record : SealedRecord) :
    World.keeping ⟨host, w.stored⟩ record = w.keeping record := by
  simp [World.keeping, hnoted.config]

theorem undecided_of_checkReplay {P : Primitives} {host later : AuditHost} {event : Json} {sessionId : JsString}
    {session : Session} (hopen : host.sessions.get sessionId = some session)
    (h : host.checkReplay P event sessionId = (later, none)) :
    ∀ keyId signerSeq, host.signedNumber event = some (keyId, signerSeq) →
      ¬session.hasDecided keyId signerSeq := by
  intro keyId signerSeq hn hd
  have hmem : signerSeq ∈ (session.decided.get keyId).getD [] := hd
  simp [AuditHost.checkReplay, hn, hopen, hmem] at h

section

variable {P : Primitives} {answers : Answers} {event : Json} {sessionId : JsString} {w : World}

theorem sealAttempt_delivers {host : AuditHost} (session : Session) (hnoted : Noted w.host host)
    (hclear : Cleared P host event sessionId session) (hkind : isAttempted event = true) :
    AttemptDelivered P event w (sealAttempt P answers event sessionId (w.withHost host)) := by
  unfold sealAttempt
  cases hs : sealEvent P answers event (w.withHost host) with
  | mk w' result =>
      rcases sealEvent_seals hclear.admissible hs with ⟨e, rfl, rfl⟩ | ⟨record, rfl, hseals⟩
      · exact ⟨none, .noted host hnoted, by simp [Answered]⟩
      · cases hseals with
        | refused => exact ⟨none, .noted host hnoted, by simp [Answered]⟩
        | lost hrepo => exact ⟨none, .lost host hnoted hrepo, by simp [Answered]⟩
        | landed record hrepo hcont =>
            exact ⟨none, .landed host sessionId session record hnoted hclear hrepo hcont, by simp [Answered]⟩
        | sealed record digest hcont hdigest =>
            refine ⟨some record, ?_, ?_⟩
            · have := Delivers.sealed (w := w) host sessionId session record digest hnoted hclear hcont hdigest
              simpa [AuditHost.sealing, hcont.carries, hkind, World.withHost, keeping_withHost hnoted] using this
            · intro response hr
              exact ⟨record, rfl, by simpa using hr⟩

theorem sealOutcome_delivers {host : AuditHost} {digest : JsString} (session : Session)
    (hnoted : Noted w.host host) (hclear : Cleared P host event sessionId session)
    (hkind : isAttempted event = false) (hdigest : digestOf P event = .ok digest) :
    OutcomeDelivered P event w (sealOutcome P answers event sessionId digest (w.withHost host)) := by
  unfold sealOutcome
  split
  · exact ⟨none, .noted host hnoted⟩
  · cases hs : sealEvent P answers event (w.withHost host) with
    | mk w' result =>
        rcases sealEvent_seals hclear.admissible hs with ⟨e, rfl, rfl⟩ | ⟨record, rfl, hseals⟩
        · exact ⟨none, .noted host hnoted⟩
        · cases hseals with
          | refused => exact ⟨none, .noted host hnoted⟩
          | lost hrepo => exact ⟨none, .lost host hnoted hrepo⟩
          | landed record hrepo hcont =>
              exact ⟨none, .landed host sessionId session record hnoted hclear hrepo hcont⟩
          | sealed record sealedDigest hcont hd =>
              obtain rfl : sealedDigest = digest := by rw [hdigest] at hd; exact (Except.ok.inj hd).symm
              refine ⟨some record, ?_⟩
              have := Delivers.sealed (w := w) host sessionId session record sealedDigest hnoted hclear hcont hd
              simpa [AuditHost.sealing, hcont.carries, hkind, World.withHost, keeping_withHost hnoted] using this

theorem sessions_get_of_has {host : AuditHost} (h : host.sessions.has sessionId = true) :
    ∃ session, host.sessions.get sessionId = some session := (OrderedMap.has_eq_true _ _).mp h

theorem decideAttempt_delivers {host : AuditHost} (expected : Option JsString) (hnoted : Noted w.host host)
    (hknown : host.config.repository = true → host.tailUncertain = false)
    (hadmits : host.Admits event expected true sessionId)
    (hheard : host.config.capability.level = .L2 → ∀ session, host.sessions.get sessionId = some session →
      ∀ keyId signerSeq, numberOf event = some (keyId, signerSeq) → session.hasReached keyId signerSeq) :
    AttemptDelivered P event w (decideAttempt P answers event sessionId (w.withHost host)) := by
  obtain ⟨session, hopen⟩ := sessions_get_of_has hadmits.isOpen
  unfold decideAttempt
  simp only [World.withHost]
  split
  · rename_i record hrecord
    split
    · exact ⟨none, .noted host hnoted, by simp [Answered]⟩
    · rename_i hsame
      refine ⟨some record, .repeated host sessionId record hnoted hadmits.admissible hadmits.named hrecord hsame, ?_⟩
      intro response hr
      exact ⟨record, rfl, by simpa using hr⟩
    · exact ⟨none, .noted _ (hnoted.trans (.refuseAttempt host event sessionId _)), by simp [Answered]⟩
  · rename_i hfresh
    by_cases hterminal : host.hasTerminal sessionId (eventId event) = true
    · rw [if_pos hterminal]
      exact ⟨none, .noted _ (hnoted.trans (.refuseAttempt host event sessionId _)), by simp [Answered]⟩
    · rw [if_neg hterminal]
      split
      · rename_i reason hreplay
        exact ⟨none, .noted _ (hnoted.trans ((Noted.checkReplay P host event sessionId).trans
          (by rw [hreplay]; exact (Noted.rejectId _ _).trans (.decide _ event sessionId)))), by simp [Answered]⟩
      · rename_i hreplay
        split
        · exact ⟨none, .noted host hnoted, by simp [Answered]⟩
        · refine sealAttempt_delivers session hnoted ?_ hadmits.attempted
          exact
            { known := hknown
              admissible := hadmits.admissible
              named := hadmits.named
              isOpen := hopen
              fresh := by simpa [AuditHost.hasTerminal, hopen] using hterminal
              undecided := undecided_of_checkReplay hopen hreplay
              heard := fun hlevel => hheard hlevel session hopen
              attempt := fun _ => hfresh
              unsealed := by simp [hadmits.attempted]
              outcome := by simp [hadmits.attempted] }

theorem judgeAttempt_delivers (answers : Answers) (event : Json) (expected : Option JsString)
    (hknown : w.host.config.repository = true → w.host.tailUncertain = false) :
    AttemptDelivered P event w (judgeAttempt P answers event expected w) := by
  have hadmit := Noted.admitEvent P w.host event expected true
  unfold judgeAttempt
  split
  · rename_i host e h
    rw [h] at hadmit
    exact ⟨none, .noted host hadmit, by simp [Answered]⟩
  · rename_i host reason h
    rw [h] at hadmit
    exact ⟨none, .noted host hadmit, by simp [Answered]⟩
  · rename_i host sessionId h
    obtain ⟨rfl, hadmits⟩ := AuditHost.admitEvent_session h
    have hverify := Noted.verifySignature P answers w.host event sessionId
    split
    · rename_i later e hv
      rw [hv] at hverify
      exact ⟨none, .noted later hverify, by simp [Answered]⟩
    · rename_i later reason hv
      rw [hv] at hverify
      exact ⟨none, .noted _ (hverify.trans (.rejectId later _)), by simp [Answered]⟩
    · rename_i later hv
      rw [hv] at hverify
      refine decideAttempt_delivers expected hverify ?_ ?_ ?_
      · rw [hverify.config, hverify.tailUncertain]
        exact hknown
      · obtain ⟨session, hopen⟩ := sessions_get_of_has hadmits.isOpen
        obtain ⟨after, hafter, -⟩ := hverify.kept sessionId session hopen
        exact { hadmits with isOpen := (OrderedMap.has_eq_true _ _).mpr ⟨after, hafter⟩ }
      · intro hlevel session hopen
        exact AuditHost.verifySignature_heard hv (by rw [← hverify.config]; exact hlevel) hopen

theorem decideOutcome_delivers {host : AuditHost} (expected : Option JsString) (hnoted : Noted w.host host)
    (hknown : host.config.repository = true → host.tailUncertain = false)
    (hadmits : host.Admits event expected false sessionId)
    (hheard : host.config.capability.level = .L2 → ∀ session, host.sessions.get sessionId = some session →
      ∀ keyId signerSeq, numberOf event = some (keyId, signerSeq) → session.hasReached keyId signerSeq) :
    OutcomeDelivered P event w (decideOutcome P answers event sessionId (w.withHost host)) := by
  obtain ⟨session, hopen⟩ := sessions_get_of_has hadmits.isOpen
  unfold decideOutcome
  split
  · exact ⟨none, .noted host hnoted⟩
  · rename_i digest hdigest
    simp only [World.withHost, hopen, Option.bind_some]
    split
    · exact ⟨none, .noted host hnoted⟩
    · rename_i hnew
      split
      · exact ⟨none, .noted _ (hnoted.trans ((Noted.decide host event sessionId).trans (.flag _ _ _ _)))⟩
      · rename_i hterminal
        split
        · rename_i later reason hreplay
          have hcheck := Noted.checkReplay P host event sessionId
          rw [hreplay] at hcheck
          exact ⟨none, .noted _ (hnoted.trans hcheck)⟩
        · rename_i hreplay
          by_cases horphan : (!isAccepted host sessionId (eventId event) &&
              !Json.isText (event.get Fields.OUTCOME) Outcome.ABORTED) = true
          · rw [if_pos horphan]
            split
            · exact ⟨none, .noted _ (hnoted.trans (.decide host event sessionId))⟩
            · exact ⟨none, .noted _ (hnoted.trans ((Noted.decide host event sessionId).trans (.flag _ _ _ _)))⟩
          · rw [if_neg horphan]
            refine sealOutcome_delivers session hnoted ?_ hadmits.attempted hdigest
            exact
              { known := hknown
                admissible := hadmits.admissible
                named := hadmits.named
                isOpen := hopen
                fresh := by simpa using hterminal
                undecided := undecided_of_checkReplay hopen hreplay
                heard := fun hlevel => hheard hlevel session hopen
                attempt := by simp [hadmits.attempted]
                unsealed := by
                  intro _ other hother
                  obtain rfl : digest = other := by rw [hdigest] at hother; exact Except.ok.inj hother
                  exact fun hmem => hnew (Or.inl hmem)
                outcome := by
                  intro _
                  simp only [isAccepted, hopen, Option.any_some, Bool.and_eq_true, Bool.not_eq_true',
                    not_and, decide_eq_false_iff_not] at horphan
                  by_cases hmem : eventId event ∈ session.accepted
                  · exact Or.inl hmem
                  · exact Or.inr (by simpa using horphan hmem) }

theorem judgeOutcome_delivers (answers : Answers) (event : Json) (expected : Option JsString)
    (hknown : w.host.config.repository = true → w.host.tailUncertain = false) :
    OutcomeDelivered P event w (judgeOutcome P answers event expected w) := by
  have hadmit := Noted.admitEvent P w.host event expected false
  unfold judgeOutcome
  split
  · rename_i host e h
    rw [h] at hadmit
    exact ⟨none, .noted host hadmit⟩
  · rename_i host reason h
    rw [h] at hadmit
    exact ⟨none, .noted host hadmit⟩
  · rename_i host sessionId h
    obtain ⟨rfl, hadmits⟩ := AuditHost.admitEvent_session h
    have hverify := Noted.verifySignature P answers w.host event sessionId
    split
    · rename_i later e hv
      rw [hv] at hverify
      exact ⟨none, .noted later hverify⟩
    · rename_i later reason hv
      rw [hv] at hverify
      exact ⟨none, .noted later hverify⟩
    · rename_i later hv
      rw [hv] at hverify
      refine decideOutcome_delivers expected hverify ?_ ?_ ?_
      · rw [hverify.config, hverify.tailUncertain]
        exact hknown
      · obtain ⟨session, hopen⟩ := sessions_get_of_has hadmits.isOpen
        obtain ⟨after, hafter, -⟩ := hverify.kept sessionId session hopen
        exact { hadmits with isOpen := (OrderedMap.has_eq_true _ _).mpr ⟨after, hafter⟩ }
      · intro hlevel session hopen
        exact AuditHost.verifySignature_heard hv (by rw [← hverify.config]; exact hlevel) hopen

end

end AuditableMcp
