import AuditableMcp.Host.Moves

namespace AuditableMcp

-- The part of the partition's chain the host's ledger describes.
def World.committed (w : World) : List SealedRecord := w.chain.take w.host.ledger.count

-- A host that agrees with another on everything but its anomalies and what is inside
-- its open sessions.
structure Framed (before after : AuditHost) : Prop where
  config : after.config = before.config
  ledger : after.ledger = before.ledger
  issued : after.issued = before.issued
  tailUncertain : after.tailUncertain = before.tailUncertain
  sealedAttempts : after.sealedAttempts = before.sealedAttempts
  sealedDigests : after.sealedDigests = before.sealedDigests
  isOpen : ∀ sessionId, after.sessions.has sessionId = before.sessions.has sessionId

theorem Framed.trans {a b c : AuditHost} (hab : Framed a b) (hbc : Framed b c) : Framed a c :=
  ⟨by rw [hbc.config, hab.config], by rw [hbc.ledger, hab.ledger], by rw [hbc.issued, hab.issued],
    by rw [hbc.tailUncertain, hab.tailUncertain], by rw [hbc.sealedAttempts, hab.sealedAttempts],
    by rw [hbc.sealedDigests, hab.sealedDigests], fun sessionId => by rw [hbc.isOpen, hab.isOpen]⟩

theorem Noted.framed {before after : AuditHost} (h : Noted before after) : Framed before after := by
  refine ⟨h.config, h.ledger, h.issued, h.tailUncertain, h.sealedAttempts, h.sealedDigests, fun sessionId => ?_⟩
  rw [Bool.eq_iff_iff, OrderedMap.has_eq_true, OrderedMap.has_eq_true]
  constructor
  · rintro ⟨later, hl⟩
    obtain ⟨session, hs, -⟩ := h.only sessionId later hl
    exact ⟨session, hs⟩
  · rintro ⟨session, hs⟩
    obtain ⟨later, hl, -⟩ := h.kept sessionId session hs
    exact ⟨later, hl⟩

theorem framed_modifySession (host : AuditHost) (sessionId : JsString) (change : Session → Session) :
    Framed host (host.modifySession sessionId change) := by
  obtain ⟨sessions, hs⟩ := host.modifySession_fields sessionId change
  have hget := fun other => host.get_modifySession sessionId other change
  refine ⟨by rw [hs], by rw [hs], by rw [hs], by rw [hs], by rw [hs], by rw [hs], fun other => ?_⟩
  simp only [OrderedMap.has, hget]
  by_cases ho : sessionId = other
  · subst ho
    simp
  · simp [ho]

theorem framed_acceptId (host : AuditHost) (sessionId id : JsString) : Framed host (host.acceptId sessionId id) :=
  framed_modifySession host sessionId _

theorem framed_setTerminal (host : AuditHost) (sessionId id digest : JsString) :
    Framed host (host.setTerminal sessionId id digest) := framed_modifySession host sessionId _

theorem framed_sealing (host : AuditHost) (record : SealedRecord) (digest sessionId : JsString) :
    Framed (host.committing record digest) (host.sealing record digest sessionId) := by
  have hdecide := (Noted.decide (host.committing record digest) record.event sessionId).framed
  simp only [AuditHost.sealing]
  split
  · exact hdecide.trans (framed_acceptId _ _ _)
  · exact hdecide.trans (framed_setTerminal _ _ _ _)

theorem framed_adopting (host : AuditHost) (record : SealedRecord) (digest sessionId : JsString) :
    Framed { host.committing record digest with tailUncertain := false }
      (host.adopting record digest sessionId) := by
  simp only [AuditHost.adopting]
  split
  · have h := framed_acceptId (host.committing record digest) sessionId (eventId record.event)
    exact ⟨h.config, h.ledger, h.issued, rfl, h.sealedAttempts, h.sealedDigests, h.isOpen⟩
  · exact ⟨rfl, rfl, rfl, rfl, rfl, rfl, fun _ => rfl⟩

theorem committing_fields (host : AuditHost) (record : SealedRecord) (digest : JsString) :
    (host.committing record digest).config = host.config ∧
      (host.committing record digest).ledger = host.ledger.commit record ∧
      (host.committing record digest).issued = host.issued ∧
      (host.committing record digest).sessions = host.sessions ∧
      (host.committing record digest).tailUncertain = host.tailUncertain := by
  unfold AuditHost.committing AuditHost.noteSealed
  split <;> exact ⟨rfl, rfl, rfl, rfl, rfl⟩

theorem committing_sealedDigests (host : AuditHost) (record : SealedRecord) (digest : JsString) :
    (host.committing record digest).sealedDigests = addTo host.sealedDigests digest := by
  unfold AuditHost.committing AuditHost.noteSealed
  split <;> rfl

theorem committing_sealedAttempts (host : AuditHost) (record : SealedRecord) (digest : JsString) :
    (host.committing record digest).sealedAttempts =
      if isAttempted record.event then host.sealedAttempts.set (eventId record.event) record
      else host.sealedAttempts := by
  unfold AuditHost.committing AuditHost.noteSealed
  split <;> rfl

-- The countersignature of a record stands together or not at all.
def CountersignedTogether (record : SealedRecord) : Prop :=
  record.host_signature.isSome = record.host_key_id.isSome ∧
    record.host_signature.isSome = record.log_id.isSome

-- Two attempts of a partition never carry one id.
def AttemptIdsDiffer (first second : SealedRecord) : Prop :=
  isAttempted first.event = true → isAttempted second.event = true → eventId first.event ≠ eventId second.event

structure SoundChain (P : Primitives) (chain : List SealedRecord) : Prop where
  linked : IsChain P chain
  admissible : ∀ record ∈ chain, Admissible record.event
  attemptIds : chain.Pairwise AttemptIdsDiffer
  countersigned : ∀ record ∈ chain, CountersignedTogether record

-- The lookup tables hold what was committed, and nothing else.
structure Tables (P : Primitives) (host : AuditHost) (committed : List SealedRecord) : Prop where
  attempts : ∀ id record, host.sealedAttempts.get id = some record ↔
    record ∈ committed ∧ isAttempted record.event = true ∧ eventId record.event = id
  digests : ∀ digest, digest ∈ host.sealedDigests ↔
    ∃ record ∈ committed, digestOf P record.event = .ok digest

-- The chain is what the host committed and at most one record more, which is only
-- there while the tail is in doubt.
structure Sound (P : Primitives) (w : World) (committed pending : List SealedRecord) : Prop where
  chain : w.chain = committed ++ pending
  count : w.host.ledger.count = committed.length
  tailHash : w.host.ledger.tailHash = tailHashOf committed
  doubt : pending = [] ∨ ∃ record, pending = [record] ∧ w.host.tailUncertain = true
  memory : w.host.config.repository = false → w.stored = [] ∧ w.host.tailUncertain = false
  soundChain : SoundChain P w.chain
  tables : Tables P w.host committed
  issuedOpen : ∀ sessionId, w.host.sessions.has sessionId = true → sessionId ∈ w.host.issued
  issuedSealed : ∀ record ∈ w.chain, ∀ sessionId,
    record.event.get Fields.SESSION_ID = some (.str sessionId) → sessionId ∈ w.host.issued

theorem Tables.framed {P : Primitives} {before after : AuditHost} {committed : List SealedRecord}
    (h : Tables P before committed) (hf : Framed before after) : Tables P after committed :=
  ⟨by rw [hf.sealedAttempts]; exact h.attempts, by rw [hf.sealedDigests]; exact h.digests⟩

theorem Tables.committing {P : Primitives} {host : AuditHost} {committed : List SealedRecord}
    (h : Tables P host committed) {record : SealedRecord} {digest : JsString}
    (hnew : isAttempted record.event = true → host.sealedAttempts.get (eventId record.event) = none)
    (hdigest : digestOf P record.event = .ok digest) :
    Tables P (host.committing record digest) (committed ++ [record]) := by
  constructor
  · intro id other
    rw [committing_sealedAttempts]
    by_cases hkind : isAttempted record.event = true
    · have habsent := hnew hkind
      rw [if_pos hkind, OrderedMap.get_set]
      by_cases hid : eventId record.event = id
      · subst hid
        rw [if_pos rfl]
        constructor
        · intro ho
          obtain rfl : record = other := Option.some.inj ho
          exact ⟨by simp, hkind, rfl⟩
        · rintro ⟨hmem, hk, he⟩
          rcases List.mem_append.mp hmem with hm | hm
          · have := (h.attempts _ other).mpr ⟨hm, hk, he⟩
            rw [habsent] at this
            cases this
          · rw [List.mem_singleton.mp hm]
      · rw [if_neg hid, h.attempts]
        constructor
        · rintro ⟨hm, hk, he⟩
          exact ⟨by simp [hm], hk, he⟩
        · rintro ⟨hmem, hk, he⟩
          rcases List.mem_append.mp hmem with hm | hm
          · exact ⟨hm, hk, he⟩
          · rw [List.mem_singleton.mp hm] at he
            exact absurd he hid
    · rw [if_neg hkind, h.attempts]
      constructor
      · rintro ⟨hm, hk, he⟩
        exact ⟨by simp [hm], hk, he⟩
      · rintro ⟨hmem, hk, he⟩
        rcases List.mem_append.mp hmem with hm | hm
        · exact ⟨hm, hk, he⟩
        · rw [List.mem_singleton.mp hm] at hk
          exact absurd hk hkind
  · intro other
    rw [committing_sealedDigests, mem_addTo, h.digests]
    constructor
    · rintro (⟨r, hr, hd⟩ | rfl)
      · exact ⟨r, by simp [hr], hd⟩
      · exact ⟨record, by simp, hdigest⟩
    · rintro ⟨r, hr, hd⟩
      rcases List.mem_append.mp hr with hm | hm
      · exact Or.inl ⟨r, hm, hd⟩
      · rw [List.mem_singleton.mp hm, hdigest] at hd
        exact Or.inr (Except.ok.inj hd).symm

theorem isChain_length (P : Primitives) {chain : List SealedRecord} (h : IsChain P chain)
    {record : SealedRecord} (hlast : chain.getLast? = some record) : record.seq + 1 = chain.length := by
  have hne : chain ≠ [] := by rintro rfl; simp at hlast
  have hlen : 0 < chain.length := List.length_pos_of_ne_nil hne
  rw [List.getLast?_eq_getElem?] at hlast
  have := h.seq _ _ hlast
  omega

-- A record that continues a sound chain, and was cleared against the host's tables.
theorem SoundChain.append {P : Primitives} {chain : List SealedRecord} (h : SoundChain P chain)
    {ledger : Ledger} {event : Json} {record : SealedRecord} (hcount : ledger.count = chain.length)
    (htail : ledger.tailHash = tailHashOf chain) (hcont : Continues P ledger event record)
    (hadm : Admissible event) (hids : ∀ other ∈ chain, AttemptIdsDiffer other record) :
    SoundChain P (chain ++ [record]) where
  linked := by
    refine (isChain_append_singleton P chain record).mpr ⟨h.linked, ?_, ?_, ?_⟩
    · rw [hcont.seq, hcount]
    · rw [hcont.previous_hash, htail]
    · rw [hcont.carries, ← hcount, ← htail]
      exact hcont.record_hash
  admissible := by
    intro other ho
    rcases List.mem_append.mp ho with hm | hm
    · exact h.admissible other hm
    · rw [List.mem_singleton.mp hm, hcont.carries]
      exact hadm
  attemptIds := List.pairwise_append.mpr ⟨h.attemptIds, List.pairwise_singleton _ _, fun a ha b hb => by
    rw [List.mem_singleton.mp hb]
    exact hids a ha⟩
  countersigned := by
    intro other ho
    rcases List.mem_append.mp ho with hm | hm
    · exact h.countersigned other hm
    · rw [List.mem_singleton.mp hm]
      exact ⟨hcont.key, hcont.log⟩

namespace Sound

variable {P : Primitives} {w : World} {committed pending : List SealedRecord}

theorem chain_of_repository (h : w.host.config.repository = true) : w.chain = w.stored := by
  simp [World.chain, h]

theorem stored_admissible (h : Sound P w committed pending) : ∀ record ∈ w.stored, Admissible record.event := by
  intro record hr
  cases hrepo : w.host.config.repository with
  | false =>
      rw [(h.memory hrepo).1] at hr
      cases hr
  | true => exact h.soundChain.admissible record (by rwa [chain_of_repository hrepo])

theorem committed_eq (h : Sound P w committed pending) : w.committed = committed := by
  rw [World.committed, h.count, h.chain, List.take_left']
  rfl

theorem framed (h : Sound P w committed pending) {host : AuditHost} (hf : Framed w.host host) :
    Sound P (w.withHost host) committed pending := by
  have hchain : World.chain (w.withHost host) = w.chain := by simp [World.chain, hf.config, hf.ledger]
  exact
    { chain := by rw [hchain]; exact h.chain
      count := by rw [hf.ledger]; exact h.count
      tailHash := by rw [hf.ledger]; exact h.tailHash
      doubt := by rw [hf.tailUncertain]; exact h.doubt
      memory := by rw [hf.config, hf.tailUncertain]; exact h.memory
      soundChain := by rw [hchain]; exact h.soundChain
      tables := h.tables.framed hf
      issuedOpen := by
        intro sessionId hs
        rw [hf.isOpen] at hs
        rw [hf.issued]
        exact h.issuedOpen sessionId hs
      issuedSealed := by rw [hchain, hf.issued]; exact h.issuedSealed }

-- Once the chain is known, nothing is pending.
theorem settled (h : Sound P w committed pending)
    (hknown : w.host.config.repository = true → w.host.tailUncertain = false) :
    pending = [] ∧ w.chain = committed := by
  have hclear : w.host.tailUncertain = false := by
    cases hrepo : w.host.config.repository with
    | false => exact (h.memory hrepo).2
    | true => exact hknown hrepo
  rcases h.doubt with rfl | ⟨record, -, hu⟩
  · exact ⟨rfl, by simpa using h.chain⟩
  · rw [hclear] at hu
    cases hu

theorem lost (h : Sound P w committed pending) (hrepo : w.host.config.repository = true) :
    Sound P (w.withHost { w.host with tailUncertain := true }) committed pending :=
  { h with
    doubt := h.doubt.imp id fun ⟨record, hp, _⟩ => ⟨record, hp, rfl⟩
    memory := fun hmem => by simp [hrepo] at hmem
    tables := ⟨h.tables.attempts, h.tables.digests⟩ }

section Extension

variable {event : Json} {sessionId : JsString} {session : Session} {record : SealedRecord}

theorem differ_of_cleared (h : Sound P w committed pending) (hclear : Cleared P w.host event sessionId session)
    (hcont : Continues P w.host.ledger event record) : ∀ other ∈ w.chain, AttemptIdsDiffer other record := by
  intro other ho hother hrecord hid
  rw [(h.settled hclear.known).2] at ho
  rw [hcont.carries] at hrecord hid
  have habsent := hclear.attempt hrecord
  rw [← hid, (h.tables.attempts _ other).mpr ⟨ho, hother, rfl⟩] at habsent
  cases habsent

theorem extend (h : Sound P w committed pending) (hclear : Cleared P w.host event sessionId session)
    (hcont : Continues P w.host.ledger event record) : SoundChain P (w.chain ++ [record]) := by
  have hchain := (h.settled hclear.known).2
  exact h.soundChain.append (by rw [h.count, hchain]) (by rw [h.tailHash, hchain]) hcont hclear.admissible
    (h.differ_of_cleared hclear hcont)

theorem issued_extend (h : Sound P w committed pending) (hclear : Cleared P w.host event sessionId session)
    (hcont : Continues P w.host.ledger event record) : ∀ other ∈ w.chain ++ [record], ∀ sid,
      other.event.get Fields.SESSION_ID = some (.str sid) → sid ∈ w.host.issued := by
  intro other ho sid hsid
  rcases List.mem_append.mp ho with hm | hm
  · exact h.issuedSealed other hm sid hsid
  · rw [List.mem_singleton.mp hm, hcont.carries, hclear.named] at hsid
    obtain rfl : sessionId = sid := by simpa using hsid
    exact h.issuedOpen sessionId ((OrderedMap.has_eq_true _ _).mpr ⟨session, hclear.isOpen⟩)

theorem landed (h : Sound P w committed pending) (hclear : Cleared P w.host event sessionId session)
    (hrepo : w.host.config.repository = true) (hcont : Continues P w.host.ledger event record) :
    Sound P ⟨{ w.host with tailUncertain := true }, w.stored ++ [record]⟩ committed [record] := by
  have hstored := chain_of_repository hrepo
  have hchain : World.chain ⟨{ w.host with tailUncertain := true }, w.stored ++ [record]⟩ = w.chain ++ [record] := by
    rw [hstored]
    simp [World.chain, hrepo]
  exact
    { chain := by rw [hchain, (h.settled hclear.known).2]
      count := h.count
      tailHash := h.tailHash
      doubt := Or.inr ⟨record, rfl, rfl⟩
      memory := fun hmem => by simp [hrepo] at hmem
      soundChain := by rw [hchain]; exact h.extend hclear hcont
      tables := ⟨h.tables.attempts, h.tables.digests⟩
      issuedOpen := h.issuedOpen
      issuedSealed := by rw [hchain]; exact h.issued_extend hclear hcont }

theorem chain_keeping {host : AuditHost} (hconfig : host.config = w.host.config)
    (hledger : host.ledger = w.host.ledger.commit record) :
    World.chain ⟨host, w.keeping record⟩ = w.chain ++ [record] := by
  unfold World.chain World.keeping
  rw [hconfig, hledger]
  cases w.host.config.repository <;> rfl

theorem committing (h : Sound P w committed pending) (hclear : Cleared P w.host event sessionId session)
    (hcont : Continues P w.host.ledger event record) {digest : JsString} (hdigest : digestOf P event = .ok digest) :
    Sound P ⟨w.host.committing record digest, w.keeping record⟩ (committed ++ [record]) [] := by
  obtain ⟨hconfig, hledger, hissued, hsessions, huncertain⟩ := committing_fields w.host record digest
  obtain ⟨-, hcommitted⟩ := h.settled hclear.known
  have hchain := chain_keeping (w := w) hconfig hledger
  exact
    { chain := by rw [hchain, hcommitted, List.append_nil]
      count := by simp [hledger, Ledger.commit, h.count]
      tailHash := by simp [hledger, Ledger.commit]
      doubt := Or.inl rfl
      memory := by
        intro hmem
        rw [hconfig] at hmem
        obtain ⟨hs, hu⟩ := h.memory hmem
        exact ⟨by simp [World.keeping, hmem, hs], by rw [huncertain, hu]⟩
      soundChain := by rw [hchain]; exact h.extend hclear hcont
      tables := h.tables.committing (by rw [hcont.carries]; exact hclear.attempt) (by rw [hcont.carries]; exact hdigest)
      issuedOpen := by rw [hsessions, hissued]; exact h.issuedOpen
      issuedSealed := by rw [hchain, hissued]; exact h.issued_extend hclear hcont }

theorem sealing (h : Sound P w committed pending) (hclear : Cleared P w.host event sessionId session)
    (hcont : Continues P w.host.ledger event record) {digest : JsString} (hdigest : digestOf P event = .ok digest) :
    Sound P ⟨w.host.sealing record digest sessionId, w.keeping record⟩ (committed ++ [record]) [] :=
  (h.committing hclear hcont hdigest).framed (framed_sealing w.host record digest sessionId)

end Extension

end Sound

end AuditableMcp
