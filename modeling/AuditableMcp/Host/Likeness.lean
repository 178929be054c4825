import AuditableMcp.Host.Moves

-- Two hosts that decide alike, though they may have noted and received different things.
namespace AuditableMcp

-- The sets of a session hold nothing twice, and neither do its maps.
structure Session.Proper (session : Session) : Prop where
  accepted : session.accepted.Nodup
  keys : session.decided.keys.Nodup
  decided : ∀ keyId values, session.decided.get keyId = some values → values.Nodup
  bounds : session.received.keys.Nodup

-- Two sessions that answer every check alike; `bounds` says whether the highest numbers
-- they received agree as well.
structure SameBook (bounds : Prop) (first second : Session) : Prop where
  proper : first.Proper
  accepted : first.accepted.Perm second.accepted
  terminal : ∀ id, first.terminal.get id = second.terminal.get id
  decided : ∀ keyId, Option.Rel List.Perm (first.decided.get keyId) (second.decided.get keyId)
  received : bounds → ∀ keyId, first.received.get keyId = second.received.get keyId

-- How far two hosts are compared: what is seen of an anomaly, and whether the bounds of
-- the sessions and the memory of refusals and issued ids agree. What does not agree is not seen.
structure Likeness where
  Seen : Type
  see : IntegrityAnomaly → Option Seen
  bounds : Prop
  memory : Prop
  gaps : bounds ∨ ∀ id detail, see ⟨id, .signerSeqGap, detail⟩ = none
  details : memory ∨ ∀ id kind first second, see ⟨id, kind, first⟩ = see ⟨id, kind, second⟩

-- What each of two hosts had sealed and shown before they are compared.
structure Base (L : Likeness) where
  firstRecords : List SealedRecord
  secondRecords : List SealedRecord
  firstSeen : List L.Seen
  secondSeen : List L.Seen

-- Nothing before: the hosts are compared from their start.
def Base.empty (L : Likeness) : Base L := ⟨[], [], [], []⟩

-- `settled` says that the two agree on whether their tail is in doubt.
structure Alike (L : Likeness) (base : Base L) (settled : Prop) (first second : AuditHost) : Prop where
  config : first.config = second.config
  persistenceAvailable : first.persistenceAvailable = second.persistenceAvailable
  count : first.ledger.count = second.ledger.count
  tailHash : first.ledger.tailHash = second.ledger.tailHash
  records : ∃ since, first.ledger.records = base.firstRecords ++ since ∧
    second.ledger.records = base.secondRecords ++ since
  issued : L.memory → ∀ id, id ∈ first.issued ↔ id ∈ second.issued
  tailUncertain : settled → first.tailUncertain = second.tailUncertain
  sealedAttempts : ∀ id, first.sealedAttempts.get id = second.sealedAttempts.get id
  sealedDigests : ∀ digest, digest ∈ first.sealedDigests ↔ digest ∈ second.sealedDigests
  rejectedIds : L.memory → ∀ id, id ∈ first.rejectedIds ↔ id ∈ second.rejectedIds
  distinct : first.sessions.keys.Nodup
  sessions : ∀ sessionId, Option.Rel (SameBook L.bounds) (first.sessions.get sessionId) (second.sessions.get sessionId)
  anomalies : ∃ since, first.anomalies.filterMap L.see = base.firstSeen ++ since ∧
    second.anomalies.filterMap L.see = base.secondSeen ++ since

-- Two computations that end in related states with one result.
structure Together {α σ : Type} (R : σ → σ → Prop) (first second : σ × α) : Prop where
  states : R first.1 second.1
  results : first.2 = second.2

theorem nodup_addTo {α : Type} [DecidableEq α] {members : List α} (h : members.Nodup) (member : α) :
    (addTo members member).Nodup := by
  unfold addTo
  by_cases hm : member ∈ members
  · rwa [if_pos hm]
  · rw [if_neg hm]
    exact List.nodup_append.mpr ⟨h, List.nodup_singleton member, fun a ha b hb => by
      rw [List.mem_singleton.mp hb]
      exact fun he => hm (he ▸ ha)⟩

theorem perm_addTo {α : Type} [DecidableEq α] {first second : List α} (h : first.Perm second) (member : α) :
    (addTo first member).Perm (addTo second member) := by
  unfold addTo
  by_cases hm : member ∈ first
  · rwa [if_pos hm, if_pos (h.mem_iff.mp hm)]
  · rw [if_neg hm, if_neg fun hs => hm (h.mem_iff.mpr hs)]
    exact h.append_right _

namespace SameBook

variable {bounds : Prop} {first second : Session}

theorem mem_accepted (h : SameBook bounds first second) (id : JsString) :
    id ∈ first.accepted ↔ id ∈ second.accepted := h.accepted.mem_iff

theorem decided_getD (h : SameBook bounds first second) (keyId : JsString) :
    ((first.decided.get keyId).getD []).Perm ((second.decided.get keyId).getD []) := by
  have hrel := h.decided keyId
  revert hrel
  generalize first.decided.get keyId = values
  generalize second.decided.get keyId = others
  intro hrel
  cases hrel with
  | some hperm => exact hperm
  | none => exact .refl _

theorem nodup_getD (h : first.Proper) (keyId : JsString) : ((first.decided.get keyId).getD []).Nodup := by
  cases hget : first.decided.get keyId with
  | none => exact List.nodup_nil
  | some values => exact h.decided keyId values hget

theorem acceptId (h : SameBook bounds first second) (id : JsString) :
    SameBook bounds { first with accepted := addTo first.accepted id }
      { second with accepted := addTo second.accepted id } :=
  { h with
    proper := { h.proper with accepted := nodup_addTo h.proper.accepted id }
    accepted := perm_addTo h.accepted id }

theorem setTerminal (h : SameBook bounds first second) (id digest : JsString) :
    SameBook bounds { first with terminal := first.terminal.set id digest }
      { second with terminal := second.terminal.set id digest } :=
  { h with
    proper := { h.proper with }
    terminal := fun other => by rw [OrderedMap.get_set, OrderedMap.get_set, h.terminal other] }

-- Every change of the decided numbers sets one key, to lists that agree.
theorem setDecided (h : SameBook bounds first second) (keyId : JsString) {values others : List JsNum}
    (hdistinct : values.Nodup) (hperm : values.Perm others) :
    SameBook bounds { first with decided := first.decided.set keyId values }
      { second with decided := second.decided.set keyId others } :=
  { h with
    proper :=
      { h.proper with
        keys := OrderedMap.nodup_keys_set h.proper.keys keyId values
        decided := by
          intro key numbers hget
          rw [OrderedMap.get_set] at hget
          by_cases hk : keyId = key
          · rw [if_pos hk] at hget
            rwa [← Option.some.inj hget]
          · rw [if_neg hk] at hget
            exact h.proper.decided key numbers hget }
    decided := by
      intro key
      simp only [OrderedMap.get_set]
      by_cases hk : keyId = key
      · rw [if_pos hk, if_pos hk]
        exact .some hperm
      · rw [if_neg hk, if_neg hk]
        exact h.decided key }

theorem decideNumber (h : SameBook bounds first second) (keyId : JsString) (signerSeq : JsNum) :
    SameBook bounds (AuditHost.decideNumber keyId signerSeq first) (AuditHost.decideNumber keyId signerSeq second) :=
  h.setDecided keyId (nodup_addTo (nodup_getD h.proper keyId) signerSeq) (perm_addTo (h.decided_getD keyId) signerSeq)

theorem setReceived (h : SameBook bounds first second) (keyId : JsString) (signerSeq : JsNum) :
    SameBook bounds { first with received := first.received.set keyId signerSeq }
      { second with received := second.received.set keyId signerSeq } :=
  { h with
    proper := { h.proper with bounds := OrderedMap.nodup_keys_set h.proper.bounds keyId signerSeq }
    received := fun hb key => by rw [OrderedMap.get_set, OrderedMap.get_set, h.received hb key] }

-- Where the bounds are not compared, either side may raise one alone.
theorem unbounded {more : OrderedMap JsString JsNum} (h : SameBook bounds first second) (hbounds : ¬bounds)
    (hkeys : more.keys.Nodup) : SameBook bounds { first with received := more } second :=
  { h with
    proper := { h.proper with bounds := hkeys }
    received := fun hb => absurd hb hbounds }

theorem unboundedRight (more : OrderedMap JsString JsNum) (h : SameBook bounds first second) (hbounds : ¬bounds) :
    SameBook bounds first { second with received := more } :=
  { h with received := fun hb => absurd hb hbounds }

end SameBook

namespace Alike

variable {L : Likeness} {base : Base L} {settled : Prop} {first second : AuditHost} {P : Primitives}
  {event : Json} {sessionId : JsString}

theorem session_cases (h : Alike L base settled first second) (sessionId : JsString) :
    (first.sessions.get sessionId = none ∧ second.sessions.get sessionId = none) ∨
      ∃ s t, first.sessions.get sessionId = some s ∧ second.sessions.get sessionId = some t ∧
        SameBook L.bounds s t := by
  have hrel := h.sessions sessionId
  revert hrel
  generalize first.sessions.get sessionId = left
  generalize second.sessions.get sessionId = right
  intro hrel
  cases hrel with
  | some hbook => exact Or.inr ⟨_, _, rfl, rfl, hbook⟩
  | none => exact Or.inl ⟨rfl, rfl⟩

theorem has (h : Alike L base settled first second) (sessionId : JsString) :
    first.sessions.has sessionId = second.sessions.has sessionId := by
  unfold OrderedMap.has
  rcases h.session_cases sessionId with ⟨hf, hs⟩ | ⟨s, t, hf, hs, -⟩
  · rw [hf, hs]
  · rw [hf, hs]
    rfl

theorem signedNumber (h : Alike L base settled first second) (event : Json) :
    first.signedNumber event = second.signedNumber event := by
  unfold AuditHost.signedNumber
  rw [h.config]

theorem hasTerminal (h : Alike L base settled first second) (sessionId id : JsString) :
    first.hasTerminal sessionId id = second.hasTerminal sessionId id := by
  unfold AuditHost.hasTerminal
  rcases h.session_cases sessionId with ⟨hf, hs⟩ | ⟨s, t, hf, hs, hbook⟩
  · rw [hf, hs]
  · rw [hf, hs, Option.bind_some, Option.bind_some, hbook.terminal]

theorem isAccepted (h : Alike L base settled first second) (sessionId id : JsString) :
    isAccepted first sessionId id = isAccepted second sessionId id := by
  unfold AuditableMcp.isAccepted
  rcases h.session_cases sessionId with ⟨hf, hs⟩ | ⟨s, t, hf, hs, hbook⟩
  · rw [hf, hs]
  · rw [hf, hs, Option.any_some, Option.any_some]
    exact decide_eq_decide.mpr (hbook.mem_accepted id)

-- An anomaly both hosts record, whatever its text, where texts that differ are not seen.
theorem flag (h : Alike L base settled first second) (id : JsString) (kind : Tier1Code)
    {detail other : AnomalyDetail} (hsee : L.see ⟨id, kind, detail⟩ = L.see ⟨id, kind, other⟩) :
    Alike L base settled (first.flag id kind detail) (second.flag id kind other) := by
  obtain ⟨since, hf, hs⟩ := h.anomalies
  refine { h with anomalies := ⟨since ++ (L.see ⟨id, kind, detail⟩).toList, ?_, ?_⟩ }
  · cases hseen : L.see ⟨id, kind, detail⟩ <;> simp [AuditHost.flag, hf, hseen]
  · rw [hsee]
    cases hseen : L.see ⟨id, kind, other⟩ <;> simp [AuditHost.flag, hs, hseen]

theorem flagged (h : Alike L base settled first second) (id : JsString) (kind : Tier1Code) (detail : AnomalyDetail) :
    Alike L base settled (first.flag id kind detail) (second.flag id kind detail) := h.flag id kind rfl

theorem flagUnseen (h : Alike L base settled first second) {id : JsString} {kind : Tier1Code} {detail : AnomalyDetail}
    (hunseen : L.see ⟨id, kind, detail⟩ = none) : Alike L base settled (first.flag id kind detail) second := by
  obtain ⟨since, hf, hs⟩ := h.anomalies
  exact { h with anomalies := ⟨since, by simp [AuditHost.flag, hf, hunseen], hs⟩ }

theorem flagUnseenRight (h : Alike L base settled first second) {id : JsString} {kind : Tier1Code}
    {detail : AnomalyDetail} (hunseen : L.see ⟨id, kind, detail⟩ = none) :
    Alike L base settled first (second.flag id kind detail) := by
  obtain ⟨since, hf, hs⟩ := h.anomalies
  exact { h with anomalies := ⟨since, hf, by simp [AuditHost.flag, hs, hunseen]⟩ }

theorem rejectId (h : Alike L base settled first second) (id : JsString) :
    Alike L base settled (first.rejectId id) (second.rejectId id) := by
  have hrejected (hm : L.memory) (other : JsString) :
      other ∈ addTo first.rejectedIds id ↔ other ∈ addTo second.rejectedIds id := by
    rw [mem_addTo, mem_addTo, h.rejectedIds hm other]
  exact { h with rejectedIds := hrejected }

theorem keys_modifySession {host : AuditHost} (h : host.sessions.keys.Nodup) (sessionId : JsString)
    (change : Session → Session) : (host.modifySession sessionId change).sessions.keys.Nodup := by
  unfold AuditHost.modifySession
  split
  · exact OrderedMap.nodup_keys_set h _ _
  · exact h

theorem modifySession (h : Alike L base settled first second) {change other : Session → Session}
    (hchange : ∀ s t, SameBook L.bounds s t → SameBook L.bounds (change s) (other t)) :
    Alike L base settled (first.modifySession sessionId change) (second.modifySession sessionId other) := by
  have hdistinct := keys_modifySession h.distinct sessionId change
  have hsessions : ∀ id, Option.Rel (SameBook L.bounds) ((first.modifySession sessionId change).sessions.get id)
      ((second.modifySession sessionId other).sessions.get id) := by
    intro id
    rw [AuditHost.get_modifySession, AuditHost.get_modifySession]
    by_cases hid : sessionId = id
    · rw [if_pos hid, if_pos hid]
      rcases h.session_cases sessionId with ⟨hf, hs⟩ | ⟨s, t, hf, hs, hbook⟩
      · rw [hf, hs]
        exact .none
      · rw [hf, hs]
        exact .some (hchange s t hbook)
    · rw [if_neg hid, if_neg hid]
      exact h.sessions id
  obtain ⟨left, hleft⟩ := first.modifySession_fields sessionId change
  obtain ⟨right, hright⟩ := second.modifySession_fields sessionId other
  rw [hleft] at hsessions hdistinct ⊢
  rw [hright] at hsessions ⊢
  exact { h with distinct := hdistinct, sessions := hsessions }

-- One side changes a session in what is not compared.
theorem modifyFirst (h : Alike L base settled first second) {change : Session → Session}
    (hchange : ∀ s t, SameBook L.bounds s t → SameBook L.bounds (change s) t) :
    Alike L base settled (first.modifySession sessionId change) second := by
  have hdistinct := keys_modifySession h.distinct sessionId change
  have hsessions : ∀ id, Option.Rel (SameBook L.bounds) ((first.modifySession sessionId change).sessions.get id)
      (second.sessions.get id) := by
    intro id
    rw [AuditHost.get_modifySession]
    by_cases hid : sessionId = id
    · subst hid
      rw [if_pos rfl]
      rcases h.session_cases sessionId with ⟨hf, hs⟩ | ⟨s, t, hf, hs, hbook⟩
      · rw [hf, hs]
        exact .none
      · rw [hf, hs]
        exact .some (hchange s t hbook)
    · rw [if_neg hid]
      exact h.sessions id
  obtain ⟨left, hleft⟩ := first.modifySession_fields sessionId change
  rw [hleft] at hsessions hdistinct ⊢
  exact { h with distinct := hdistinct, sessions := hsessions }

theorem modifySecond (h : Alike L base settled first second) {change : Session → Session}
    (hchange : ∀ s t, SameBook L.bounds s t → SameBook L.bounds s (change t)) :
    Alike L base settled first (second.modifySession sessionId change) := by
  have hsessions : ∀ id, Option.Rel (SameBook L.bounds) (first.sessions.get id)
      ((second.modifySession sessionId change).sessions.get id) := by
    intro id
    rw [AuditHost.get_modifySession]
    by_cases hid : sessionId = id
    · subst hid
      rw [if_pos rfl]
      rcases h.session_cases sessionId with ⟨hf, hs⟩ | ⟨s, t, hf, hs, hbook⟩
      · rw [hf, hs]
        exact .none
      · rw [hf, hs]
        exact .some (hchange s t hbook)
    · rw [if_neg hid]
      exact h.sessions id
  obtain ⟨right, hright⟩ := second.modifySession_fields sessionId change
  rw [hright] at hsessions ⊢
  exact { h with sessions := hsessions }

theorem acceptId (h : Alike L base settled first second) (sessionId id : JsString) :
    Alike L base settled (first.acceptId sessionId id) (second.acceptId sessionId id) :=
  h.modifySession fun _ _ hbook => hbook.acceptId id

theorem setTerminal (h : Alike L base settled first second) (sessionId id digest : JsString) :
    Alike L base settled (first.setTerminal sessionId id digest) (second.setTerminal sessionId id digest) :=
  h.modifySession fun _ _ hbook => hbook.setTerminal id digest

theorem decide (h : Alike L base settled first second) (event : Json) (sessionId : JsString) :
    Alike L base settled (first.decide event sessionId) (second.decide event sessionId) := by
  unfold AuditHost.decide
  rw [h.signedNumber]
  split
  · exact h.modifySession fun _ _ hbook => hbook.decideNumber _ _
  · exact h

theorem refuseAttempt (h : Alike L base settled first second) (event : Json) (sessionId detail : JsString) :
    Alike L base settled (first.refuseAttempt event sessionId detail) (second.refuseAttempt event sessionId detail) :=
  ((h.rejectId _).decide event sessionId).flagged _ _ _

theorem noteSealed (h : Alike L base settled first second) (record : SealedRecord) (digest : JsString) :
    Alike L base settled (first.noteSealed record digest) (second.noteSealed record digest) := by
  have hdigests (other : JsString) :
      other ∈ addTo first.sealedDigests digest ↔ other ∈ addTo second.sealedDigests digest := by
    rw [mem_addTo, mem_addTo, h.sealedDigests other]
  have hattempts (id : JsString) : (first.sealedAttempts.set (eventId record.event) record).get id =
      (second.sealedAttempts.set (eventId record.event) record).get id := by
    rw [OrderedMap.get_set, OrderedMap.get_set, h.sealedAttempts id]
  unfold AuditHost.noteSealed
  dsimp only
  split
  · exact { h with sealedDigests := hdigests, sealedAttempts := hattempts }
  · exact { h with sealedDigests := hdigests }

theorem commit (h : Alike L base settled first second) (record : SealedRecord) :
    Alike L base settled { first with ledger := first.ledger.commit record }
      { second with ledger := second.ledger.commit record } := by
  obtain ⟨since, hf, hs⟩ := h.records
  exact { h with
    count := by simp [Ledger.commit, h.count]
    tailHash := rfl
    records := ⟨since ++ [record], by simp [Ledger.commit, hf], by simp [Ledger.commit, hs]⟩ }

theorem checkReplay (h : Alike L base settled first second) (event : Json) (sessionId : JsString) :
    Together (Alike L base settled) (first.checkReplay P event sessionId) (second.checkReplay P event sessionId) := by
  unfold AuditHost.checkReplay
  rw [h.signedNumber]
  rcases h.session_cases sessionId with ⟨hf, hs⟩ | ⟨s, t, hf, hs, hbook⟩
  · rw [hf, hs]
    cases second.signedNumber event with
    | none => exact ⟨h, rfl⟩
    | some number => exact ⟨h, rfl⟩
  · rw [hf, hs]
    cases second.signedNumber event with
    | none => exact ⟨h, rfl⟩
    | some number =>
        obtain ⟨keyId, signerSeq⟩ := number
        have hmem := (hbook.decided_getD keyId).mem_iff (a := signerSeq)
        dsimp only
        by_cases hd : signerSeq ∈ (s.decided.get keyId).getD []
        · rw [if_pos hd, if_pos (hmem.mp hd)]
          exact ⟨h.flagged _ _ _, rfl⟩
        · rw [if_neg hd, if_neg fun ht => hd (hmem.mpr ht)]
          exact ⟨h, rfl⟩

theorem receivedNumber (h : Alike L base settled first second) (hbounds : L.bounds) (sessionId keyId : JsString) :
    first.receivedNumber sessionId keyId = second.receivedNumber sessionId keyId := by
  unfold AuditHost.receivedNumber
  rcases h.session_cases sessionId with ⟨hf, hs⟩ | ⟨s, t, hf, hs, hbook⟩
  · rw [hf, hs]
  · rw [hf, hs, Option.bind_some, Option.bind_some, hbook.received hbounds]

-- Where the bounds are not compared, what one host receives is not seen.
theorem received (h : Alike L base settled first second) (hbounds : ¬L.bounds) (event : Json)
    (sessionId keyId : JsString) (signerSeq : JsNum) :
    Alike L base settled (first.receive P event sessionId keyId signerSeq) second := by
  have hgap : Alike L base settled (first.gapFlagged P event (first.receivedNumber sessionId keyId) signerSeq) second := by
    unfold AuditHost.gapFlagged
    split
    · exact h.flagUnseen ((L.gaps.resolve_left hbounds) _ _)
    · exact h
  unfold AuditHost.receive
  dsimp only
  split
  · exact hgap.modifyFirst fun s t hbook =>
      hbook.unbounded hbounds (OrderedMap.nodup_keys_set hbook.proper.bounds keyId signerSeq)
  · exact hgap

theorem receivedRight (h : Alike L base settled first second) (hbounds : ¬L.bounds) (event : Json)
    (sessionId keyId : JsString) (signerSeq : JsNum) :
    Alike L base settled first (second.receive P event sessionId keyId signerSeq) := by
  have hgap : Alike L base settled first
      (second.gapFlagged P event (second.receivedNumber sessionId keyId) signerSeq) := by
    unfold AuditHost.gapFlagged
    split
    · exact h.flagUnseenRight ((L.gaps.resolve_left hbounds) _ _)
    · exact h
  unfold AuditHost.receive
  dsimp only
  split
  · exact hgap.modifySecond fun s t hbook => hbook.unboundedRight _ hbounds
  · exact hgap

theorem receive (h : Alike L base settled first second) (event : Json) (sessionId keyId : JsString)
    (signerSeq : JsNum) : Alike L base settled (first.receive P event sessionId keyId signerSeq)
      (second.receive P event sessionId keyId signerSeq) := by
  by_cases hbounds : L.bounds
  · have hgap : Alike L base settled
        (first.gapFlagged P event (second.receivedNumber sessionId keyId) signerSeq)
        (second.gapFlagged P event (second.receivedNumber sessionId keyId) signerSeq) := by
      unfold AuditHost.gapFlagged
      split
      · exact h.flagged _ _ _
      · exact h
    unfold AuditHost.receive
    dsimp only
    rw [h.receivedNumber hbounds]
    split
    · exact hgap.modifySession fun _ _ hbook => hbook.setReceived _ _
    · exact hgap
  · exact (h.received hbounds event sessionId keyId signerSeq).receivedRight hbounds event sessionId keyId signerSeq

theorem verifySignature (h : Alike L base settled first second) (answers : Answers) (event : Json)
    (sessionId : JsString) : Together (Alike L base settled) (first.verifySignature P answers event sessionId)
      (second.verifySignature P answers event sessionId) := by
  unfold AuditHost.verifySignature
  rw [h.config]
  split
  · exact ⟨h, rfl⟩
  · split
    · exact ⟨h.flagged _ _ _, rfl⟩
    · split
      · exact ⟨h, rfl⟩
      · exact ⟨h.flagged _ _ _, rfl⟩
      · exact ⟨h.receive event sessionId _ _, rfl⟩

theorem sessionOf (h : Alike L base settled first second) (event : Json) (expected : Option JsString) :
    Together (Alike L base settled) (first.sessionOf P event expected) (second.sessionOf P event expected) := by
  unfold AuditHost.sessionOf
  simp only [h.has]
  split
  · split
    · exact ⟨h, rfl⟩
    · exact ⟨h.flagged _ _ _, rfl⟩
  · split
    · exact ⟨h, rfl⟩
    · exact ⟨h.flagged _ _ _, rfl⟩

theorem admitEvent (h : Alike L base settled first second) (event : Json) (expected : Option JsString)
    (attempt : Bool) : Together (Alike L base settled) (first.admitEvent P event expected attempt)
      (second.admitEvent P event expected attempt) := by
  unfold AuditHost.admitEvent
  split
  · split
    · exact ⟨h, rfl⟩
    · exact ⟨h.flagged _ _ _, rfl⟩
  · split
    · exact ⟨h.flagged _ _ _, rfl⟩
    · split
      · exact ⟨h.flagged _ _ _, rfl⟩
      · have hsession := h.sessionOf (P := P) event expected
        revert hsession
        generalize first.sessionOf P event expected = left
        generalize second.sessionOf P event expected = right
        obtain ⟨later, result⟩ := left
        obtain ⟨other, answer⟩ := right
        rintro ⟨halike, rfl⟩
        rcases result with e | (_ | id) <;> exact ⟨halike, rfl⟩

end Alike

end AuditableMcp
