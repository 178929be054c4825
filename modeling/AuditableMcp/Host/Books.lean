import AuditableMcp.Host.Repeats

-- What an open session's books say of the chain: the attempts it accepted, and the
-- operations it holds for concluded.
namespace AuditableMcp

-- A committed attempt of this session and id.
def AttemptIn (records : List SealedRecord) (sessionId id : JsString) : Prop :=
  ∃ record ∈ records, inSession record sessionId ∧ isAttempted record.event = true ∧ eventId record.event = id

-- A terminal outcome of this session and id.
def OutcomeIn (records : List SealedRecord) (sessionId id : JsString) : Prop :=
  ∃ record ∈ records, inSession record sessionId ∧ isAttempted record.event = false ∧ eventId record.event = id

theorem AttemptIn.mono {records more : List SealedRecord} {sessionId id : JsString}
    (h : AttemptIn records sessionId id) (hmore : ∀ record ∈ records, record ∈ more) :
    AttemptIn more sessionId id := by
  obtain ⟨record, hr, hrest⟩ := h
  exact ⟨record, hmore record hr, hrest⟩

theorem exists_mem_append_singleton {p : SealedRecord → Prop} (records : List SealedRecord) (record : SealedRecord) :
    (∃ other ∈ records ++ [record], p other) ↔ (∃ other ∈ records, p other) ∨ p record := by
  constructor
  · rintro ⟨other, ho, hp⟩
    rcases List.mem_append.mp ho with hm | hm
    · exact Or.inl ⟨other, hm, hp⟩
    · rw [List.mem_singleton.mp hm] at hp
      exact Or.inr hp
  · rintro (⟨other, ho, hp⟩ | hp)
    · exact ⟨other, by simp [ho], hp⟩
    · exact ⟨record, by simp, hp⟩

theorem attemptIn_append_singleton {records : List SealedRecord} {record : SealedRecord} {sessionId id : JsString} :
    AttemptIn (records ++ [record]) sessionId id ↔ AttemptIn records sessionId id ∨
      (inSession record sessionId ∧ isAttempted record.event = true ∧ eventId record.event = id) :=
  exists_mem_append_singleton records record

theorem outcomeIn_append_singleton {records : List SealedRecord} {record : SealedRecord} {sessionId id : JsString} :
    OutcomeIn (records ++ [record]) sessionId id ↔ OutcomeIn records sessionId id ∨
      (inSession record sessionId ∧ isAttempted record.event = false ∧ eventId record.event = id) :=
  exists_mem_append_singleton records record

-- A session accepted exactly the attempts committed in it, and holds for concluded only
-- operations with an outcome committed in it. An outcome it took over from the tail it
-- may have overlooked.
structure Books (sessionId : JsString) (session : Session) (records : List SealedRecord) : Prop where
  accepted : ∀ id, id ∈ session.accepted ↔ AttemptIn records sessionId id
  terminal : ∀ id, (session.terminal.get id).isSome = true → OutcomeIn records sessionId id

namespace Books

variable {sessionId digest : JsString} {session later : Session} {records : List SealedRecord} {record : SealedRecord}

theorem same (h : Books sessionId session records) (hsame : SameSession session later) :
    Books sessionId later records :=
  ⟨by rw [hsame.accepted]; exact h.accepted, by rw [hsame.terminal]; exact h.terminal⟩

-- A record that is no attempt of the session leaves its books true.
theorem passed (h : Books sessionId session records)
    (hnot : ¬(inSession record sessionId ∧ isAttempted record.event = true)) :
    Books sessionId session (records ++ [record]) := by
  refine ⟨fun id => ?_, fun id hid => outcomeIn_append_singleton.mpr (Or.inl (h.terminal id hid))⟩
  rw [h.accepted, attemptIn_append_singleton]
  exact ⟨Or.inl, fun hor => hor.resolve_right fun ⟨hin, hkind, _⟩ => hnot ⟨hin, hkind⟩⟩

theorem attempted (h : Books sessionId session records) (hin : inSession record sessionId)
    (hkind : isAttempted record.event = true) :
    Books sessionId { session with accepted := addTo session.accepted (eventId record.event) }
      (records ++ [record]) := by
  refine ⟨fun id => ?_, fun id hid => outcomeIn_append_singleton.mpr (Or.inl (h.terminal id hid))⟩
  rw [mem_addTo, h.accepted, attemptIn_append_singleton]
  constructor
  · rintro (hold | rfl)
    · exact Or.inl hold
    · exact Or.inr ⟨hin, hkind, rfl⟩
  · rintro (hold | ⟨-, -, hid⟩)
    · exact Or.inl hold
    · exact Or.inr hid.symm

-- The byte-identical repeat of an attempt is accepted again.
theorem repeated {id : JsString} (h : Books sessionId session records) (hattempt : AttemptIn records sessionId id) :
    Books sessionId { session with accepted := addTo session.accepted id } records := by
  refine ⟨fun other => ?_, h.terminal⟩
  rw [mem_addTo, h.accepted]
  constructor
  · rintro (hold | rfl)
    · exact hold
    · exact hattempt
  · exact Or.inl

theorem concluded (h : Books sessionId session records) (hin : inSession record sessionId)
    (hkind : isAttempted record.event = false) :
    Books sessionId { session with terminal := session.terminal.set (eventId record.event) digest }
      (records ++ [record]) := by
  refine ⟨(h.passed (by simp [hkind])).accepted, fun id hid => ?_⟩
  simp only [OrderedMap.get_set] at hid
  split at hid
  · rename_i he
    exact outcomeIn_append_singleton.mpr (Or.inr ⟨hin, hkind, he⟩)
  · exact outcomeIn_append_singleton.mpr (Or.inl (h.terminal id hid))

end Books

-- What `B` says of each open session and of some records.
def EachSession (B : JsString → Session → List SealedRecord → Prop) (host : AuditHost)
    (records : List SealedRecord) : Prop :=
  ∀ sessionId session, host.sessions.get sessionId = some session → B sessionId session records

def Booked (host : AuditHost) (records : List SealedRecord) : Prop := EachSession Books host records

-- What the books of a session must survive, for the host to keep them true.
structure Bookkeeping (P : Primitives) (B : JsString → Session → List SealedRecord → Prop) : Prop where
  fresh : ∀ sessionId records, (∀ record ∈ records, ¬inSession record sessionId) → B sessionId Session.new records
  same : ∀ sessionId session later records, B sessionId session records → SameSession session later →
    B sessionId later records
  passed : ∀ sessionId session records record, B sessionId session records →
    ¬(inSession record sessionId ∧ isAttempted record.event = true) → B sessionId session (records ++ [record])
  attempted : ∀ sessionId session records record, B sessionId session records → inSession record sessionId →
    isAttempted record.event = true →
    B sessionId { session with accepted := addTo session.accepted (eventId record.event) } (records ++ [record])
  repeated : ∀ sessionId session records id, B sessionId session records → AttemptIn records sessionId id →
    B sessionId { session with accepted := addTo session.accepted id } records
  concluded : ∀ sessionId session records record digest, B sessionId session records → inSession record sessionId →
    isAttempted record.event = false → digestOf P record.event = .ok digest →
    B sessionId { session with terminal := session.terminal.set (eventId record.event) digest } (records ++ [record])

theorem sameSession_restoredNumber (event : Json) (session : Session) :
    SameSession session (restoredNumber event session) :=
  ⟨(restoredNumber_fields event session).1, (restoredNumber_fields event session).2,
    fun keyId signerSeq h => (hasDecided_restoredNumber event session keyId signerSeq).mpr (Or.inl h),
    fun _ _ h => hasReached_restoredNumber event (Or.inl h)⟩

-- A session rebuilt from the records has the books of one that was kept.
theorem Bookkeeping.restored {P : Primitives} {B : JsString → Session → List SealedRecord → Prop}
    (hB : Bookkeeping P B) {sessionId : JsString} {records : List SealedRecord} {session : Session}
    (hadm : ∀ record ∈ records, Admissible record.event)
    (h : restoredSession P sessionId records = .ok session) : B sessionId session records := by
  refine foldlM_ok_invariant (fun done session => B sessionId session done) records ?_
    (hB.fresh sessionId [] (by simp)) h
  intro done record rest before after hsplit hbooks hstep
  have hrecord := hadm record (by rw [hsplit]; simp)
  have hversion : Json.isText (record.event.get Fields.SPEC_VERSION) SPEC_VERSION = true :=
    Json.isText_eq_true.mpr hrecord.current.version
  by_cases hin : inSession record sessionId
  · have hnumbered := hB.same _ _ _ _ hbooks (sameSession_restoredNumber record.event before)
    obtain ⟨haccepted, hterminal⟩ := restoredNumber_fields record.event before
    rcases restoredRecord_taken hin hversion hstep with ⟨hkind, rfl⟩ | ⟨hkind, digest, hdigest, rfl⟩
    · have hbooks' := hB.attempted _ _ _ record hnumbered hin hkind
      rwa [haccepted] at hbooks'
    · have hbooks' := hB.concluded _ _ _ record digest hnumbered hin hkind hdigest
      rwa [hterminal] at hbooks'
  · rw [restoredRecord_skipped (fun htaken => hin htaken.1) hstep]
    exact hB.passed _ _ _ _ hbooks fun hboth => hin hboth.1

namespace EachSession

variable {P : Primitives} {B : JsString → Session → List SealedRecord → Prop} {host after : AuditHost}
  {records : List SealedRecord} {record : SealedRecord} {sessionId id digest : JsString}

theorem of_sessions_eq (h : EachSession B host records) (hsessions : after.sessions = host.sessions) :
    EachSession B after records := fun sessionId session hs => h sessionId session (by rw [← hsessions]; exact hs)

theorem noted (hB : Bookkeeping P B) (h : EachSession B host records) (hnoted : Noted host after) :
    EachSession B after records := by
  intro sessionId later hl
  obtain ⟨session, hs, hsame⟩ := hnoted.only sessionId later hl
  exact hB.same _ _ _ _ (h sessionId session hs) hsame

-- One session is changed, the others stand, and a record may have been committed.
theorem modifySession {more : List SealedRecord} (h : EachSession B host records) (change : Session → Session)
    (hchange : ∀ session, B sessionId session records → B sessionId (change session) more)
    (hother : ∀ other session, sessionId ≠ other → B other session records → B other session more) :
    EachSession B (host.modifySession sessionId change) more := by
  intro other later hl
  rw [host.get_modifySession] at hl
  by_cases ho : sessionId = other
  · subst ho
    rw [if_pos rfl] at hl
    obtain ⟨session, hs, rfl⟩ := Option.map_eq_some_iff.mp hl
    exact hchange session (h sessionId session hs)
  · rw [if_neg ho] at hl
    exact hother other later ho (h other later hl)

theorem acceptId (hB : Bookkeeping P B) (h : EachSession B host records) (hattempt : AttemptIn records sessionId id) :
    EachSession B (host.acceptId sessionId id) records :=
  h.modifySession _ (fun _ hbooks => hB.repeated _ _ _ _ hbooks hattempt) fun _ _ _ hbooks => hbooks

-- A record of one session leaves the books of the others true.
theorem passed_of_ne (hB : Bookkeeping P B) (hnamed : inSession record sessionId) (other : JsString)
    (session : Session) (hne : sessionId ≠ other) (hbooks : B other session records) :
    B other session (records ++ [record]) :=
  hB.passed _ _ _ _ hbooks fun h => hne (inSession_unique hnamed h.1)

theorem sealing (hB : Bookkeeping P B) (h : EachSession B host records) (hnamed : inSession record sessionId)
    (hdigest : digestOf P record.event = .ok digest) :
    EachSession B (host.sealing record digest sessionId) (records ++ [record]) := by
  have hdecided := (h.of_sessions_eq (committing_fields host record digest).2.2.2.1).noted hB
    (Noted.decide (host.committing record digest) record.event sessionId)
  simp only [AuditHost.sealing]
  split
  · rename_i hkind
    exact hdecided.modifySession _ (fun _ hbooks => hB.attempted _ _ _ _ hbooks hnamed hkind)
      (passed_of_ne hB hnamed)
  · rename_i hkind
    exact hdecided.modifySession _
      (fun _ hbooks => hB.concluded _ _ _ _ _ hbooks hnamed (by simpa using hkind) hdigest) (passed_of_ne hB hnamed)

theorem adopting (hB : Bookkeeping P B) (h : EachSession B host records) (hnamed : inSession record sessionId) :
    EachSession B (host.adopting record digest sessionId) (records ++ [record]) := by
  have hcommitted : EachSession B (host.committing record digest) records :=
    h.of_sessions_eq (committing_fields host record digest).2.2.2.1
  simp only [AuditHost.adopting]
  split
  · rename_i hkind
    exact (hcommitted.modifySession _ (fun _ hbooks => hB.attempted _ _ _ _ hbooks hnamed hkind)
      (passed_of_ne hB hnamed)).of_sessions_eq rfl
  · rename_i hkind
    have hpassed : EachSession B (host.committing record digest) (records ++ [record]) := fun sid session hs =>
      hB.passed _ _ _ _ (hcommitted sid session hs) fun h => hkind h.2
    exact hpassed.of_sessions_eq rfl

end EachSession

-- A repeat is answered from an attempt of its own session.
theorem attemptIn_repeated {P : Primitives} {w : World} {committed pending : List SealedRecord}
    (hjcs : JcsFaithful P) (hsound : Sound P w committed pending) {event : Json}
    {record : SealedRecord} {sessionId : JsString} (hnamed : event.get Fields.SESSION_ID = some (.str sessionId))
    (hrecord : w.host.sealedAttempts.get (eventId event) = some record)
    (hsame : sameBytes P record.event event = .ok true) : AttemptIn committed sessionId (eventId event) := by
  obtain ⟨hm, hkind, hid⟩ := (hsound.tables.attempts _ record).mp hrecord
  have hcanon := canon_eq_of_canonicallyEqual hjcs (sameBytes_eq_true.mp hsame)
  exact ⟨record, hm, Json.get_str_of_canon_eq hcanon.symm _ _ hnamed, hkind, hid⟩

namespace Bookkeeping

variable {P : Primitives} {B : JsString → Session → List SealedRecord → Prop} {w w' : World}
  {committed pending : List SealedRecord} {adopted answered : Option SealedRecord}

theorem settles (hB : Bookkeeping P B) (hsound : Sound P w committed pending) (h : EachSession B w.host w.committed)
    (hs : Settles P w adopted w') : EachSession B w'.host w'.committed := by
  cases hs with
  | kept => exact h
  | confirmed hrepo hsame =>
      rw [(hsound.confirmed hrepo hsame).2.committed_eq, ← hsound.committed_eq]
      exact h.of_sessions_eq rfl
  | adopted record digest sessionId hlanded hdigest hsession =>
      rw [(hsound.adopted hlanded hdigest).committed_eq, ← hsound.committed_eq]
      exact h.adopting hB hsession

theorem delivers (hB : Bookkeeping P B) (hjcs : JcsFaithful P) (hsound : Sound P w committed pending)
    (h : EachSession B w.host w.committed) {event : Json} (hd : Delivers P event w w' answered) :
    EachSession B w'.host w'.committed := by
  have hcommitted := hsound.committed_eq
  cases hd with
  | noted host hnoted =>
      rw [(hsound.framed hnoted.framed).committed_eq, ← hcommitted]
      exact h.noted hB hnoted
  | repeated host sessionId record hnoted hadm hnamed hrecord hsame =>
      have hframed := hsound.framed hnoted.framed
      rw [(hsound.framed (hnoted.framed.trans (framed_acceptId host sessionId _))).committed_eq, ← hcommitted]
      refine (h.noted hB hnoted).acceptId hB ?_
      rw [hcommitted]
      exact attemptIn_repeated hjcs hframed hnamed hrecord hsame
  | lost host hnoted hrepo =>
      rw [((hsound.framed hnoted.framed).lost hrepo).committed_eq, ← hcommitted]
      exact (h.noted hB hnoted).of_sessions_eq rfl
  | landed host sessionId session record hnoted hclear hrepo hcont =>
      rw [((hsound.framed hnoted.framed).landed hclear hrepo hcont).committed_eq, ← hcommitted]
      exact (h.noted hB hnoted).of_sessions_eq rfl
  | sealed host sessionId session record digest hnoted hclear hcont hdigest =>
      have hsealed := (hsound.framed hnoted.framed).sealing hclear hcont hdigest
      rw [show World.keeping (w.withHost host) record = w.keeping record from keeping_withHost hnoted record] at hsealed
      rw [hsealed.committed_eq, ← hcommitted]
      refine (h.noted hB hnoted).sealing hB ?_ ?_
      · rw [inSession, hcont.carries]
        exact hclear.named
      · rw [hcont.carries]
        exact hdigest

theorem moves (hB : Bookkeeping P B) (hjcs : JcsFaithful P) (hsound : Sound P w committed pending)
    (h : EachSession B w.host w.committed) {call : Call} (hm : Moves P w call w') :
    EachSession B w'.host w'.committed := by
  have hcommitted := hsound.committed_eq
  cases hm with
  | stayed => exact h
  | delivered event adopted answered settled after hadopts hsettles hdelivers =>
      obtain ⟨_, _, hsettled⟩ := hsound.settles hsettles
      exact hB.delivers hjcs hsettled (hB.settles hsound h hsettles) hdelivers
  | opened sessionId hfresh =>
      rw [(hsound.opened sessionId).committed_eq, ← hcommitted]
      intro sid session hs
      rw [OrderedMap.get_set] at hs
      split at hs
      · rename_i hsid
        subst hsid
        obtain rfl := Option.some.inj hs
        -- An id that was never issued names no record.
        exact hB.fresh _ _ fun record hr hin =>
          hfresh (hsound.issuedSealed record (List.mem_of_mem_take hr) sessionId hin)
      · exact h sid session hs
  | closed sessionId host hnoted =>
      rw [((hsound.closed sessionId).framed hnoted.framed).committed_eq, ← hcommitted]
      refine EachSession.noted hB (fun sid session hs => ?_) hnoted
      rw [OrderedMap.get_delete] at hs
      split at hs
      · cases hs
      · exact h sid session hs
  | toggled available => exact h.of_sessions_eq rfl
  | resumed capability options openSessions config host hcall hconfig hhost =>
      obtain ⟨hsound', hres⟩ := hsound.resumed (construct_fields hconfig).1 hhost
      rw [hsound'.committed_eq]
      intro sid later hl
      obtain ⟨-, base, hbase, hsame⟩ := hres.restored sid later hl
      exact hB.same _ _ _ _ (hB.restored hsound.stored_admissible hbase) hsame

-- Books that survive every change are true of every host a run reaches.
theorem run (hB : Bookkeeping P B) (hjcs : JcsFaithful P) (config : HostConfig) (calls : List Call) :
    EachSession B (run P (World.new config) calls).host (run P (World.new config) calls).committed := by
  refine (run_induction (I := fun w => EachSession B w.host w.committed) (fun _ _ => True)
    (fun _ _ _ _ _ hsound _ hmoves _ hI => hB.moves hjcs hsound hI hmoves) (sound_new P config)
    (fun sessionId session h => ?_) calls fun _ _ _ _ => trivial).1
  simp [World.new, AuditHost.new] at h

end Bookkeeping

theorem books_kept (P : Primitives) : Bookkeeping P Books where
  fresh := by
    intro sessionId records hnone
    refine ⟨fun id => ⟨fun hid => absurd hid (by simp [Session.new]), ?_⟩, fun id hid => absurd hid (by
      simp [Session.new])⟩
    rintro ⟨record, hr, hin, -⟩
    exact absurd hin (hnone record hr)
  same := fun _ _ _ _ h hsame => h.same hsame
  passed := fun _ _ _ _ h hnot => h.passed hnot
  attempted := fun _ _ _ _ h hin hkind => h.attempted hin hkind
  repeated := fun _ _ _ _ h hattempt => h.repeated hattempt
  concluded := fun _ _ _ _ _ h hin hkind _ => h.concluded hin hkind

end AuditableMcp
