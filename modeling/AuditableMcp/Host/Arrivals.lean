import AuditableMcp.Host.Flagging
import AuditableMcp.Host.Receipts

-- The events of one session, as they arrive, when the host takes every one of them.
namespace AuditableMcp

-- An accepted attempt, or an outcome that was sealed.
def Reply.takes : Reply → Bool
  | .attempt (.accept _) => true
  | .outcome .sealed => true
  | _ => false

-- A call that delivers an event of a session, with what it recorded and answered.
def Call.arrival (P : Primitives) (sessionId : JsString) (w : World) (call : Call) : Option Reception :=
  (call.event.filter fun event => Json.isText (event.get Fields.SESSION_ID) sessionId).map fun event =>
    ⟨event, sessionId, (perform P w call).1.host.anomalies.drop w.host.anomalies.length, (perform P w call).2⟩

-- What arrives in a session over a list of calls, whether the host received it or not.
def arrivals (P : Primitives) (sessionId : JsString) : World → List Call → List Reception
  | _, [] => []
  | w, call :: rest => (call.arrival P sessionId w).toList ++ arrivals P sessionId (perform P w call).1 rest

theorem arrivals_append_singleton (P : Primitives) (sessionId : JsString) (w : World) (calls : List Call) (call : Call) :
    arrivals P sessionId w (calls ++ [call]) =
      arrivals P sessionId w calls ++ (call.arrival P sessionId (run P w calls)).toList := by
  induction calls generalizing w with
  | nil => simp [arrivals, run]
  | cons first rest ih => simp only [List.cons_append, arrivals, ih, List.append_assoc, run_cons]

-- What arrives is what the calls deliver, however they are answered.
theorem arrivals_events (P : Primitives) (sessionId : JsString) (w : World) (calls : List Call) :
    (arrivals P sessionId w calls).map Reception.event = (calls.filterMap Call.event).filter fun event =>
      Json.isText (event.get Fields.SESSION_ID) sessionId := by
  induction calls generalizing w with
  | nil => rfl
  | cons call rest ih =>
      rw [arrivals, List.map_append, ih, List.filterMap_cons]
      cases hevent : call.event with
      | none => simp [Call.arrival, hevent]
      | some event =>
          by_cases hnamed : Json.isText (event.get Fields.SESSION_ID) sessionId = true
          · simp [Call.arrival, hevent, hnamed, Option.filter]
          · simp [Call.arrival, hevent, hnamed, Option.filter]

theorem arrivals_named {P : Primitives} {sessionId : JsString} {w : World} {calls : List Call} {arrival : Reception}
    (h : arrival ∈ arrivals P sessionId w calls) :
    arrival.event.get Fields.SESSION_ID = some (.str sessionId) := by
  have hmem : arrival.event ∈ (arrivals P sessionId w calls).map Reception.event := List.mem_map_of_mem h
  rw [arrivals_events] at hmem
  exact Json.isText_eq_true.mp (List.mem_filter.mp hmem).2

-- The sessions issued and open stay what they were.
structure SameOpen (before after : AuditHost) : Prop where
  issued : after.issued = before.issued
  isOpen : ∀ sessionId, after.sessions.has sessionId = before.sessions.has sessionId

theorem SameOpen.trans {a b c : AuditHost} (hab : SameOpen a b) (hbc : SameOpen b c) : SameOpen a c :=
  ⟨by rw [hbc.issued, hab.issued], fun sessionId => by rw [hbc.isOpen, hab.isOpen]⟩

theorem Framed.sameOpen {before after : AuditHost} (h : Framed before after) : SameOpen before after :=
  ⟨h.issued, h.isOpen⟩

theorem sameOpen_committing (host : AuditHost) (record : SealedRecord) (digest : JsString) :
    SameOpen host (host.committing record digest) := by
  obtain ⟨-, -, hissued, hsessions, -⟩ := committing_fields host record digest
  exact ⟨hissued, fun sessionId => by rw [hsessions]⟩

theorem Settles.sameOpen {P : Primitives} {w w' : World} {adopted : Option SealedRecord} (h : Settles P w adopted w') :
    SameOpen w.host w'.host := by
  cases h with
  | kept => exact ⟨rfl, fun _ => rfl⟩
  | confirmed => exact ⟨rfl, fun _ => rfl⟩
  | adopted record digest sessionId =>
      have hcommitting : SameOpen w.host { w.host.committing record digest with tailUncertain := false } :=
        ⟨(sameOpen_committing w.host record digest).issued, (sameOpen_committing w.host record digest).isOpen⟩
      exact hcommitting.trans (framed_adopting w.host record digest sessionId).sameOpen

theorem Delivers.sameOpen {P : Primitives} {event : Json} {w w' : World} {answered : Option SealedRecord}
    (h : Delivers P event w w' answered) : SameOpen w.host w'.host := by
  cases h with
  | noted host hnoted => exact hnoted.framed.sameOpen
  | repeated host sessionId record hnoted =>
      exact hnoted.framed.sameOpen.trans (framed_acceptId host sessionId (eventId event)).sameOpen
  | lost host hnoted => exact ⟨hnoted.framed.issued, hnoted.framed.isOpen⟩
  | landed host sessionId session record hnoted => exact ⟨hnoted.framed.issued, hnoted.framed.isOpen⟩
  | sealed host sessionId session record digest hnoted =>
      exact hnoted.framed.sameOpen.trans ((sameOpen_committing host record digest).trans
        (framed_sealing host record digest sessionId).sameOpen)

section Calls

variable {P : Primitives} {answers : Answers} {event : Json} {sessionId keyId : JsString} {w : World}
  {committed pending : List SealedRecord} {call : Call}

theorem perform_sameOpen (hsound : Sound P w committed pending) (hevent : call.event = some event) :
    SameOpen w.host (perform P w call).1.host := by
  cases call with
  | attempt answers event expected expired =>
      obtain ⟨adopted, settled, answered, hsettles, -, hdelivers, -⟩ :=
        handleAttempt_delivers (P := P) answers event expected expired hsound.stored_admissible
      dsimp only [perform]
      rw [replying_fst]
      exact hsettles.sameOpen.trans hdelivers.sameOpen
  | outcome answers event expected =>
      obtain ⟨adopted, settled, answered, hsettles, -, hdelivers⟩ :=
        recordOutcome_delivers (P := P) answers event expected hsound.stored_admissible
      dsimp only [perform]
      rw [replying_fst]
      exact hsettles.sameOpen.trans hdelivers.sameOpen
  | _ => cases hevent

-- What receiving an event does: it counts as received, and the chain takes it up or stays.
structure Counts (P : Primitives) (event : Json) (sessionId keyId : JsString) (n : Nat) (before after : World) : Prop where
  named : event.get Fields.SESSION_ID = some (.str sessionId)
  numbered : numberOf event = some (keyId, .ofNat n)
  isOpen : before.host.sessions.has sessionId = true
  received : ∃ host, SameOpen before.host host ∧ Unheard before.host host ∧
    Unheard (host.receive P event sessionId keyId (.ofNat n)) after.host
  grows : Grows event before after

-- However it is decided, an event that is received counts.
theorem Weighed.counts {expected : Option JsString} {attempt : Bool} {settled after : World} {later : AuditHost}
    (hsound : Sound P w committed pending) (hlevel : w.host.config.capability.level = .L2)
    (hweighed : Weighed P answers event expected attempt sessionId w settled later)
    (hunheard : Unheard later after.host) (hgrows : Grows event (settled.withHost later) after) :
    ∃ keyId n, Counts P event sessionId keyId n w after := by
  obtain ⟨adopted, hsettles⟩ := hweighed.settles hsound
  have hadmits := (AuditHost.admitEvent_session hweighed.admitted).2
  have hnoted := hweighed.noted
  obtain ⟨keyId, n, hnumber, rfl⟩ := verifySignature_receives (by rw [hsettles.config]; exact hlevel) hadmits.admissible
    hweighed.verified
  refine ⟨keyId, n, hadmits.named, hnumber, ?_, ⟨settled.host, hsettles.sameOpen, .settles hsettles, hunheard⟩, ?_⟩
  · rw [← hsettles.sameOpen.isOpen]
    exact hadmits.isOpen
  · have hchain := (chain_withHost (w := settled) hnoted.config hnoted.ledger).trans hsettles.chain
    have hconfig := hnoted.config.trans hsettles.config
    unfold Grows at hgrows ⊢
    rw [hchain] at hgrows
    exact hgrows.imp_right fun ⟨hsignable, hgrown⟩ => ⟨hconfig ▸ hsignable, hgrown⟩

theorem receives_counts (hjcs : JcsFaithful P) (hsound : Sound P w committed pending)
    (hlevel : w.host.config.capability.level = .L2) (h : call.receives P w = some (event, sessionId)) :
    ∃ keyId n, Counts P event sessionId keyId n w (perform P w call).1 := by
  obtain ⟨answers, expected, settled, later, -, ⟨hweighed, hperform⟩ | ⟨hweighed, hperform⟩⟩ := receives_cases h
  · obtain ⟨adopted, hsettles⟩ := hweighed.settles hsound
    obtain ⟨_, _, hsettled⟩ := hsound.settles hsettles
    have hadmits := (AuditHost.admitEvent_session hweighed.admitted).2
    have hdecided := @decideAttempt_decided _ answers _ sessionId _ _ _ hjcs (hsettled.framed hweighed.noted.framed)
      hadmits.admissible
    rw [← hperform] at hdecided
    exact hweighed.counts hsound hlevel hdecided.unheard hdecided.grows
  · have hadmits := (AuditHost.admitEvent_session hweighed.admitted).2
    have hcases := @decideOutcome_cases P answers event sessionId (settled.withHost later) hadmits.admissible
    rw [← hperform] at hcases
    rcases hcases with hdecided | hrepeated
    · exact hweighed.counts hsound hlevel hdecided.unheard hdecided.grows
    · rw [hrepeated.same]
      exact hweighed.counts hsound hlevel (.refl later) (Or.inl rfl)

-- Number `n` after the ones before it is the number expected.
def highestOf : Nat → Option JsNum
  | 0 => none
  | n + 1 => some (.ofNat n)

theorem expectedNumber_highestOf (n : Nat) : AuditHost.expectedNumber (highestOf n) = .ofNat n := by
  cases n with
  | zero => rfl
  | succ n => exact Witnessed.expectedNumber_ofNat n

-- Where it was expected, the number received becomes the highest of its key and session,
-- and no gap is flagged.
theorem receive_expected {host : AuditHost} {n : Nat} (hopen : host.sessions.has sessionId = true)
    (hnumber : host.receivedNumber sessionId keyId = highestOf n) :
    (host.receive P event sessionId keyId (.ofNat n)).receivedNumber sessionId keyId = highestOf (n + 1) ∧
      (host.receive P event sessionId keyId (.ofNat n)).anomalies = host.anomalies := by
  have hnot : (AuditHost.expectedNumber (highestOf n)).lt (.ofNat n) = false := by
    rw [expectedNumber_highestOf]
    simp [JsNum.ofNat, JsNum.lt]
  have hflagged : host.gapFlagged P event (highestOf n) (.ofNat n) = host := by
    unfold AuditHost.gapFlagged
    rw [if_neg (by rw [hnot]; simp)]
  have hlarger : highestOf n = none ∨ (highestOf n).any (fun highest => highest.lt (.ofNat n)) = true := by
    cases n with
    | zero => exact Or.inl rfl
    | succ n => exact Or.inr (Witnessed.ofNat_lt.mpr (Nat.lt_succ_self n))
  refine ⟨?_, by rw [receive_anomalies, hnumber, hflagged]⟩
  obtain ⟨session, hsession⟩ := (OrderedMap.has_eq_true _ _).mp hopen
  unfold AuditHost.receive
  dsimp only
  rw [hnumber, hflagged, if_pos hlarger]
  unfold AuditHost.receivedNumber
  rw [AuditHost.get_modifySession, if_pos rfl, hsession]
  simp [highestOf]

theorem receive_other {host : AuditHost} {other key : JsString} {signerSeq : JsNum} (hne : other ≠ sessionId) :
    (host.receive P event sessionId keyId signerSeq).receivedNumber other key = host.receivedNumber other key := by
  unfold AuditHost.receive
  dsimp only
  split
  · unfold AuditHost.receivedNumber
    rw [AuditHost.get_modifySession, if_neg hne.symm, AuditHost.gapFlagged_sessions]
  · unfold AuditHost.receivedNumber
    rw [AuditHost.gapFlagged_sessions]

-- What the books of a session say after so many of its events: they are sealed, nothing
-- else of the session is, and the last number is the highest received while the session is open.
structure InOrder (sessionId keyId : JsString) (taken : List Json) (w : World) : Prop where
  issued : taken ≠ [] → sessionId ∈ w.host.issued
  highest : w.host.sessions.has sessionId = true → w.host.receivedNumber sessionId keyId = highestOf taken.length
  sealed : ∀ event ∈ taken, SealedAs w.chain event
  chain : ∀ record ∈ w.chain, record.event.get Fields.SESSION_ID = some (.str sessionId) → record.event ∈ taken

-- A call in which nothing of the session arrives.
structure Aside (sessionId keyId : JsString) (before after : World) : Prop where
  issued : sessionId ∈ before.host.issued → sessionId ∈ after.host.issued
  highest : after.host.sessions.has sessionId = true →
    (before.host.sessions.has sessionId = true ∧
      after.host.receivedNumber sessionId keyId = before.host.receivedNumber sessionId keyId) ∨
    (sessionId ∉ before.host.issued ∧ after.host.receivedNumber sessionId keyId = none)
  extends_chain : before.chain <+: after.chain
  others : ∀ record ∈ after.chain, record ∈ before.chain ∨ record.event.get Fields.SESSION_ID ≠ some (.str sessionId)

theorem InOrder.aside {taken : List Json} {after : World} (h : InOrder sessionId keyId taken w)
    (haside : Aside sessionId keyId w after) : InOrder sessionId keyId taken after where
  issued := fun hne => haside.issued (h.issued hne)
  highest := by
    intro hopen
    rcases haside.highest hopen with ⟨hbefore, hsame⟩ | ⟨hfresh, hnone⟩
    · rw [hsame]
      exact h.highest hbefore
    · -- A session that was not yet issued has taken nothing.
      have hempty : taken = [] := by
        by_contra hne
        exact hfresh (h.issued hne)
      rw [hnone, hempty]
      rfl
  sealed := fun event hmem => (h.sealed event hmem).mono haside.extends_chain
  chain := by
    intro record hr hnamed
    rcases haside.others record hr with hbefore | hother
    · exact h.chain record hbefore hnamed
    · exact absurd hnamed hother

theorem Counts.takes_in {taken : List Json} {after : World} {n : Nat} (h : InOrder sessionId keyId taken w)
    (hissued : sessionId ∈ w.host.issued) (hcounts : Counts P event sessionId keyId n w after)
    (hsame : SameOpen w.host after.host) (hn : n = taken.length) (hsealed : SealedAs after.chain event) :
    InOrder sessionId keyId (taken ++ [event]) after where
  issued := fun _ => hsame.issued ▸ hissued
  highest := by
    intro _
    obtain ⟨host, hhost, hbefore, hafter⟩ := hcounts.received
    have hopen : host.sessions.has sessionId = true := by
      rw [hhost.isOpen]
      exact hcounts.isOpen
    have hnumber : host.receivedNumber sessionId keyId = highestOf n := by
      rw [hbefore.received, hn]
      exact h.highest hcounts.isOpen
    rw [hafter.received, (receive_expected hopen hnumber).1, hn, List.length_append, List.length_singleton]
  sealed := by
    have hextends : w.chain <+: after.chain := by
      rcases hcounts.grows with hchain | ⟨-, record, -, hchain⟩
      · exact hchain ▸ List.prefix_rfl
      · rw [hchain]
        exact List.prefix_append _ _
    intro other hmem
    rcases List.mem_append.mp hmem with hbefore | hlast
    · exact (h.sealed other hbefore).mono hextends
    · rw [List.mem_singleton.mp hlast]
      exact hsealed
  chain := by
    intro record hr hnamed
    apply List.mem_append.mpr
    rcases hcounts.grows with hchain | ⟨-, added, hadded, hchain⟩
    · rw [hchain] at hr
      exact Or.inl (h.chain record hr hnamed)
    · rw [hchain] at hr
      rcases List.mem_append.mp hr with hbefore | hlast
      · exact Or.inl (h.chain record hbefore hnamed)
      · rw [List.mem_singleton.mp hlast, hadded]
        exact Or.inr (List.mem_singleton_self event)

theorem sealEvent_takes {after : World} {record : SealedRecord} (hadm : Admissible event)
    (h : sealEvent P answers event w = (after, .ok (some record))) : SealedAs after.chain event := by
  obtain ⟨-, -, ⟨e, hthrew, -⟩ | hnone | ⟨-, -, hsealed⟩⟩ := sealEvent_cases hadm h
  · cases hthrew
  · cases hnone
  · exact hsealed

theorem sealAttempt_takes {after : World} {response : AcceptResponse} (hadm : Admissible event)
    (h : sealAttempt P answers event sessionId w = (after, .ok (.accept response))) : SealedAs after.chain event := by
  unfold sealAttempt at h
  split at h
  · simp at h
  · simp at h
  · rename_i settled record hs
    obtain ⟨rfl, -⟩ := Prod.mk.inj h
    have hframed := (Noted.decide settled.host event sessionId).framed.trans
      (framed_acceptId (settled.host.decide event sessionId) sessionId (eventId event))
    rw [chain_withHost hframed.config hframed.ledger]
    exact sealEvent_takes hadm hs

-- An accepted attempt is sealed by then, now or when it was first accepted.
theorem decideAttempt_takes {after : World} {response : AcceptResponse} (hjcs : JcsFaithful P)
    (hsound : Sound P w committed pending) (hadm : Admissible event)
    (h : decideAttempt P answers event sessionId w = (after, .ok (.accept response))) : SealedAs after.chain event := by
  unfold decideAttempt at h
  split at h
  · rename_i record hrecord
    split at h
    · simp at h
    · rename_i hsame
      obtain ⟨rfl, -⟩ := Prod.mk.inj h
      have hframed := framed_acceptId w.host sessionId (eventId event)
      rw [chain_withHost hframed.config hframed.ledger]
      exact repeatedAttempt_sealedAs hjcs hsound hrecord hsame
    · simp at h
  · split at h
    · simp at h
    · split at h
      · simp at h
      · split at h
        · simp at h
        · exact sealAttempt_takes hadm h

theorem sealOutcome_takes {after : World} {digest : JsString} (hadm : Admissible event)
    (h : sealOutcome P answers event sessionId digest w = (after, .ok .sealed)) : SealedAs after.chain event := by
  unfold sealOutcome at h
  split at h
  · simp at h
  · split at h
    · simp at h
    · simp at h
    · rename_i settled record hs
      obtain ⟨rfl, -⟩ := Prod.mk.inj h
      have hframed := (Noted.decide settled.host event sessionId).framed.trans
        (framed_setTerminal (settled.host.decide event sessionId) sessionId (eventId event) digest)
      rw [chain_withHost hframed.config hframed.ledger]
      exact sealEvent_takes hadm hs

theorem decideOutcome_takes {after : World} (hadm : Admissible event)
    (h : decideOutcome P answers event sessionId w = (after, .ok .sealed)) : SealedAs after.chain event := by
  unfold decideOutcome at h
  split at h
  · simp at h
  · dsimp only at h
    split at h
    · simp at h
    · split at h
      · simp at h
      · split at h
        · simp at h
        · split at h
          · split at h
            · simp at h
            · simp at h
          · exact sealOutcome_takes hadm h

theorem accepted_of_takes {out : World × Except JsError AttemptResponse}
    (h : (World.replying .attempt out).2.takes = true) : ∃ after response, out = (after, .ok (.accept response)) := by
  obtain ⟨after, result⟩ := out
  rcases result with e | response
  · cases h
  · cases response with
    | accept response => exact ⟨after, response, rfl⟩
    | _ => cases h

theorem sealed_of_takes {out : World × Except JsError OutcomeDisposition}
    (h : (World.replying .outcome out).2.takes = true) : ∃ after, out = (after, .ok .sealed) := by
  obtain ⟨after, result⟩ := out
  rcases result with e | disposition
  · cases h
  · cases disposition with
    | sealed => exact ⟨after, rfl⟩
    | _ => cases h

-- An event the host takes was received.
theorem takes_receives (hevent : call.event = some event) (h : (perform P w call).2.takes = true) :
    ∃ sessionId, call.receives P w = some (event, sessionId) := by
  cases call with
  | attempt answers delivered expected expired =>
      obtain rfl : delivered = event := Option.some.inj hevent
      obtain ⟨after, response, hout⟩ := accepted_of_takes h
      unfold handleAttempt at hout
      split at hout
      · simp at hout
      · rename_i hlive
        split at hout
        · simp at hout
        · simp at hout
        · rename_i settled hknown
          unfold judgeAttempt at hout
          split at hout
          · simp at hout
          · simp at hout
          · rename_i host sessionId hadmission
            obtain ⟨rfl, -⟩ := AuditHost.admitEvent_session hadmission
            split at hout
            · simp at hout
            · simp at hout
            · rename_i later hverify
              exact ⟨sessionId, by simp [Call.receives, hlive, verifiedIn, hknown, hadmission, hverify]⟩
  | outcome answers delivered expected =>
      obtain rfl : delivered = event := Option.some.inj hevent
      obtain ⟨after, hout⟩ := sealed_of_takes h
      unfold recordOutcome at hout
      split at hout
      · simp at hout
      · rename_i hobject
        have hobject : delivered.isObject = true := by simpa using hobject
        split at hout
        · simp at hout
        · simp at hout
        · rename_i settled hknown
          unfold judgeOutcome at hout
          split at hout
          · simp at hout
          · simp at hout
          · rename_i host sessionId hadmission
            obtain ⟨rfl, -⟩ := AuditHost.admitEvent_session hadmission
            split at hout
            · simp at hout
            · simp at hout
            · rename_i later hverify
              exact ⟨sessionId, by simp [Call.receives, hobject, verifiedIn, hknown, hadmission, hverify]⟩
  | _ => cases hevent

theorem receives_event (h : call.receives P w = some (event, sessionId)) : call.event = some event := by
  cases call with
  | attempt answers delivered expected expired =>
      obtain ⟨-, hmap⟩ : expired = false ∧ ((verifiedIn P answers delivered expected true w).map
          fun sessionId => (delivered, sessionId)) = some (event, sessionId) := by
        simpa [Call.receives] using h
      obtain ⟨session, -, hpair⟩ := Option.map_eq_some_iff.mp hmap
      exact congrArg some (Prod.mk.inj hpair).1
  | outcome answers delivered expected =>
      obtain ⟨-, hmap⟩ : delivered.isObject = true ∧ ((verifiedIn P answers delivered expected false w).map
          fun sessionId => (delivered, sessionId)) = some (event, sessionId) := by
        simpa [Call.receives] using h
      obtain ⟨session, -, hpair⟩ := Option.map_eq_some_iff.mp hmap
      exact congrArg some (Prod.mk.inj hpair).1
  | _ => cases h

-- An event that is taken is sealed, and under the number expected nothing is recorded for it.
theorem receives_takes (hjcs : JcsFaithful P) (hsound : Sound P w committed pending)
    (hlevel : w.host.config.capability.level = .L2) (h : call.receives P w = some (event, sessionId))
    (htakes : (perform P w call).2.takes = true) {n : Nat} (hnumber : numberOf event = some (keyId, .ofNat n))
    (hhighest : w.host.receivedNumber sessionId keyId = highestOf n) :
    SealedAs (perform P w call).1.chain event ∧ (perform P w call).1.host.anomalies = w.host.anomalies := by
  obtain ⟨answers, expected, settled, later, -, hweighed⟩ := receives_cases h
  -- Nothing was recorded before the decision.
  have hquiet : ∀ {attempt : Bool}, Weighed P answers event expected attempt sessionId w settled later →
      later.anomalies = w.host.anomalies := by
    intro attempt hweighed
    obtain ⟨adopted, hsettles⟩ := hweighed.settles hsound
    have hadmits := (AuditHost.admitEvent_session hweighed.admitted).2
    obtain ⟨key, m, hsame, rfl⟩ := verifySignature_receives (by rw [hsettles.config]; exact hlevel) hadmits.admissible
      hweighed.verified
    obtain ⟨rfl, rfl⟩ : keyId = key ∧ n = m := by
      have hpair := hnumber.symm.trans hsame
      simpa [JsNum.ofNat] using hpair
    have hbefore : settled.host.receivedNumber sessionId keyId = highestOf n := by
      rw [(Unheard.settles hsettles).received]
      exact hhighest
    have hsettled := (@chainKnown_quiet P answers w).1
    rw [hweighed.known] at hsettled
    rw [(receive_expected hadmits.isOpen hbefore).2]
    exact hsettled
  rcases hweighed with ⟨hweighed, hperform⟩ | ⟨hweighed, hperform⟩
  · obtain ⟨adopted, hsettles⟩ := hweighed.settles hsound
    obtain ⟨_, _, hsettled⟩ := hsound.settles hsettles
    have hadmits := (AuditHost.admitEvent_session hweighed.admitted).2
    rw [hperform] at htakes ⊢
    obtain ⟨after, response, hout⟩ := accepted_of_takes htakes
    rw [hout]
    refine ⟨decideAttempt_takes hjcs (hsettled.framed hweighed.noted.framed) hadmits.admissible hout, ?_⟩
    rcases @decideAttempt_records _ _ _ expected _ _ _ _ hadmits.named hout with ⟨cause, hrefused, -⟩ | ⟨-, hsame⟩
    · cases hrefused
    · exact hsame.trans (hquiet hweighed)
  · have hadmits := (AuditHost.admitEvent_session hweighed.admitted).2
    rw [hperform] at htakes ⊢
    obtain ⟨after, hout⟩ := sealed_of_takes htakes
    rw [hout]
    refine ⟨decideOutcome_takes hadmits.admissible hout, ?_⟩
    rcases @decideOutcome_records _ _ _ expected _ _ _ _ hadmits.named hout with ⟨hrefused, -⟩ | ⟨-, hsame⟩
    · cases hrefused
    · exact hsame.trans (hquiet hweighed)

theorem Aside.of_chain_eq {after : World} (hissued : sessionId ∈ w.host.issued → sessionId ∈ after.host.issued)
    (hhighest : after.host.sessions.has sessionId = true →
      (w.host.sessions.has sessionId = true ∧ after.host.receivedNumber sessionId keyId = w.host.receivedNumber sessionId keyId) ∨
      (sessionId ∉ w.host.issued ∧ after.host.receivedNumber sessionId keyId = none))
    (hchain : after.chain = w.chain) : Aside sessionId keyId w after :=
  ⟨hissued, hhighest, hchain ▸ List.prefix_rfl, fun _ hr => Or.inl (hchain ▸ hr)⟩

-- An event of another session, received or not.
theorem delivery_aside (hjcs : JcsFaithful P) (hsound : Sound P w committed pending)
    (hlevel : w.host.config.capability.level = .L2) (hevent : call.event = some event)
    (hother : event.get Fields.SESSION_ID ≠ some (.str sessionId)) : Aside sessionId keyId w (perform P w call).1 := by
  have hsame := perform_sameOpen hsound hevent
  have hissued : sessionId ∈ w.host.issued → sessionId ∈ (perform P w call).1.host.issued := fun h => hsame.issued ▸ h
  cases hreceives : call.receives P w with
  | none =>
      have hunmoved := perform_unmoved hsound hevent hreceives
      refine .of_chain_eq hissued (fun hopen => Or.inl ⟨?_, hunmoved.unheard.received _ _⟩) hunmoved.chain
      rw [← hsame.isOpen]
      exact hopen
  | some delivery =>
      obtain ⟨received, carried⟩ := delivery
      obtain rfl : received = event := by
        have hown := receives_event hreceives
        rw [hevent] at hown
        exact (Option.some.inj hown).symm
      obtain ⟨key, n, hcounts⟩ := receives_counts hjcs hsound hlevel hreceives
      have hne : sessionId ≠ carried := by
        rintro rfl
        exact hother hcounts.named
      obtain ⟨host, hhost, hbefore, hafter⟩ := hcounts.received
      refine ⟨hissued, fun hopen => Or.inl ⟨?_, ?_⟩, ?_, ?_⟩
      · rw [← hsame.isOpen]
        exact hopen
      · rw [hafter.received, receive_other hne, hbefore.received]
      · rcases hcounts.grows with hchain | ⟨-, record, -, hchain⟩
        · exact hchain ▸ List.prefix_rfl
        · rw [hchain]
          exact List.prefix_append _ _
      · intro record hr
        rcases hcounts.grows with hchain | ⟨-, added, hadded, hchain⟩
        · exact Or.inl (hchain ▸ hr)
        · rw [hchain] at hr
          rcases List.mem_append.mp hr with hold | hlast
          · exact Or.inl hold
          · rw [List.mem_singleton.mp hlast, hadded]
            exact Or.inr hother

theorem perform_aside (hjcs : JcsFaithful P) (hsound : Sound P w committed pending)
    (hlevel : w.host.config.capability.level = .L2) (hrestarts : call.restarts = false)
    (harrival : call.arrival P sessionId w = none) : Aside sessionId keyId w (perform P w call).1 := by
  have hdelivery : ∀ event, call.event = some event → Aside sessionId keyId w (perform P w call).1 := by
    intro event hevent
    apply delivery_aside hjcs hsound hlevel hevent
    intro hnamed
    simp [Call.arrival, hevent, hnamed, Json.isText] at harrival
  cases call with
  | openSession other =>
      have hchain : (perform P w (.openSession other)).1.chain = w.chain := (perform_unreceived hsound hrestarts rfl).chain
      dsimp only [perform] at hchain ⊢
      rw [replying_fst] at hchain ⊢
      unfold AuditHost.openSession at hchain ⊢
      split at hchain
      · rename_i hissued
        rw [if_pos hissued]
        exact .of_chain_eq id (fun hopen => Or.inl ⟨hopen, rfl⟩) rfl
      · rename_i hfresh
        rw [if_neg hfresh]
        refine .of_chain_eq (fun h => (mem_addTo _ _ _).mpr (Or.inl h)) (fun hopen => ?_) hchain
        unfold AuditHost.receivedNumber
        by_cases hsame : other = sessionId
        · subst hsame
          exact Or.inr ⟨hfresh, by simp [Session.new]⟩
        · refine Or.inl ⟨?_, by simp [OrderedMap.get_set, hsame]⟩
          obtain ⟨session, hsession⟩ := (OrderedMap.has_eq_true _ _).mp hopen
          rw [OrderedMap.get_set, if_neg hsame] at hsession
          exact (OrderedMap.has_eq_true _ _).mpr ⟨session, hsession⟩
  | closeSession other =>
      have hchain : (perform P w (.closeSession other)).1.chain = w.chain := (perform_unreceived hsound hrestarts rfl).chain
      dsimp only [perform] at hchain ⊢
      refine .of_chain_eq (fun h => ?_) (fun hopen => Or.inl ?_) hchain
      · cases hget : w.host.sessions.get other with
        | none =>
            simp only [AuditHost.closeSession, hget]
            exact h
        | some session =>
            have hnoted := closeSession_noted w.host other session hget
            rw [hnoted.issued]
            exact h
      · cases hget : w.host.sessions.get other with
        | none =>
            have hsame : w.host.closeSession other = w.host := by simp only [AuditHost.closeSession, hget]
            rw [hsame] at hopen ⊢
            exact ⟨hopen, rfl⟩
        | some session =>
            have hsessions : (w.host.closeSession other).sessions = w.host.sessions.delete other := by
              simp only [AuditHost.closeSession, hget]
              rw [foldl_flag_sessions]
            unfold AuditHost.receivedNumber
            simp only [hsessions] at hopen ⊢
            obtain ⟨later, hlater⟩ := (OrderedMap.has_eq_true _ _).mp hopen
            rw [OrderedMap.get_delete] at hlater ⊢
            split at hlater
            · cases hlater
            · rename_i hne
              rw [if_neg hne]
              exact ⟨(OrderedMap.has_eq_true _ _).mpr ⟨later, hlater⟩, rfl⟩
  | attempt answers event expected expired => exact hdelivery event rfl
  | outcome answers event expected => exact hdelivery event rfl
  | setPersistenceAvailable available =>
      exact .of_chain_eq id (fun hopen => Or.inl ⟨hopen, rfl⟩) (chain_withHost rfl rfl)
  | resume capability options openSessions => cases hrestarts

end Calls

-- A session whose every event is taken, in the order of its numbers under one key, has no
-- gap flagged and all its events sealed.
theorem arrivals_taken {P : Primitives} (hjcs : JcsFaithful P) {w : World} {committed pending : List SealedRecord}
    (hsound : Sound P w committed pending) (hlevel : w.host.config.capability.level = .L2) {sessionId keyId : JsString}
    (hfresh : sessionId ∉ w.host.issued) (calls : List Call) (hrestarts : ∀ call ∈ calls, call.restarts = false)
    (htaken : ∀ arrival ∈ arrivals P sessionId w calls, arrival.reply.takes = true)
    (hnumbers : (arrivals P sessionId w calls).map (fun arrival => numberOf arrival.event) =
      (List.range (arrivals P sessionId w calls).length).map fun n => some (keyId, .ofNat n)) :
    InOrder sessionId keyId ((arrivals P sessionId w calls).map Reception.event) (run P w calls) ∧
      ∀ arrival ∈ arrivals P sessionId w calls, arrival.recorded = [] := by
  induction calls using List.reverseRecOn with
  | nil =>
      refine ⟨⟨fun hne => absurd rfl hne, fun hopen => ?_, by simp [arrivals], fun record hr hnamed => ?_⟩, by simp [arrivals]⟩
      · exact absurd (hsound.issuedOpen _ hopen) hfresh
      · exact absurd (hsound.issuedSealed record hr _ hnamed) hfresh
  | append_singleton calls call ih =>
      rw [arrivals_append_singleton] at htaken hnumbers ⊢
      rw [run_append]
      show InOrder _ _ _ (perform P (run P w calls) call).1 ∧ _
      obtain ⟨_, _, hlater⟩ := run_sound hsound calls
      have hbefore := fun other ho => hrestarts other (List.mem_append_left _ ho)
      have hlevel' : (run P w calls).host.config.capability.level = .L2 := by
        rw [run_keeps_config hsound calls hbefore]
        exact hlevel
      cases harrival : call.arrival P sessionId (run P w calls) with
      | none =>
          rw [harrival, Option.toList_none, List.append_nil] at htaken hnumbers
          rw [Option.toList_none, List.append_nil]
          obtain ⟨hordered, hrecorded⟩ := ih hbefore htaken hnumbers
          exact ⟨hordered.aside (perform_aside hjcs hlater hlevel' (hrestarts call (by simp)) harrival), hrecorded⟩
      | some arrival =>
          rw [harrival, Option.toList_some] at htaken hnumbers
          rw [Option.toList_some]
          rw [List.map_append, List.length_append, List.length_singleton, List.range_succ, List.map_append] at hnumbers
          obtain ⟨hinit, hlast⟩ := List.append_inj hnumbers (by simp)
          obtain ⟨hordered, hrecorded⟩ := ih hbefore (fun other ho => htaken other (List.mem_append_left _ ho)) hinit
          have htakes := htaken arrival (by simp)
          have hnumber : numberOf arrival.event = some (keyId, .ofNat (arrivals P sessionId w calls).length) := by
            simpa using hlast
          obtain ⟨event, hfilter, rfl⟩ := Option.map_eq_some_iff.mp harrival
          obtain ⟨hevent, hnamed⟩ := Option.filter_eq_some_iff.mp hfilter
          have hnamed := Json.isText_eq_true.mp hnamed
          obtain ⟨carried, hreceives⟩ := takes_receives hevent htakes
          obtain ⟨key, n, hcounts⟩ := receives_counts hjcs hlater hlevel' hreceives
          obtain rfl : carried = sessionId := by
            have hown := hcounts.named.symm.trans hnamed
            simpa using hown
          obtain ⟨rfl, rfl⟩ : key = keyId ∧ n = (arrivals P carried w calls).length := by
            have hpair := hcounts.numbered.symm.trans hnumber
            simpa [JsNum.ofNat] using hpair
          have hhighest := hordered.highest hcounts.isOpen
          rw [List.length_map] at hhighest
          obtain ⟨hsealed, hquiet⟩ := receives_takes hjcs hlater hlevel' hreceives htakes hnumber hhighest
          have hissued := hlater.issuedOpen _ hcounts.isOpen
          refine ⟨?_, ?_⟩
          · rw [List.map_append]
            exact hcounts.takes_in hordered hissued (perform_sameOpen hlater hevent) (by simp) hsealed
          · simp only [List.forall_mem_append, List.forall_mem_singleton]
            refine ⟨hrecorded, ?_⟩
            show List.drop _ _ = []
            rw [hquiet, List.drop_length]

end AuditableMcp
