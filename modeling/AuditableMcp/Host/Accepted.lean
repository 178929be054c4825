import AuditableMcp.Host.Books

namespace AuditableMcp

-- What an open session holds as accepted was committed as an attempt of that session.
def AcceptedSealed (host : AuditHost) (committed : List SealedRecord) : Prop :=
  ∀ sessionId session, host.sessions.get sessionId = some session →
    ∀ id ∈ session.accepted, AttemptIn committed sessionId id

theorem Booked.acceptedSealed {host : AuditHost} {committed : List SealedRecord} (h : Booked host committed) :
    AcceptedSealed host committed := fun sessionId session hs id => ((h sessionId session hs).accepted id).mp

-- A success or failure whose attempt is among the records before it.
def CorrelatedWith (before : List SealedRecord) (record : SealedRecord) : Prop :=
  isAttempted record.event = false → Json.isText (record.event.get Fields.OUTCOME) Outcome.ABORTED = false →
    ∃ sessionId, inSession record sessionId ∧ AttemptIn before sessionId (eventId record.event)

theorem Extends.correlated {P : Primitives} {w : World} {record : SealedRecord} (hbooked : Booked w.host w.committed)
    (h : Extends P w record) : CorrelatedWith w.chain record := by
  obtain ⟨host, sessionId, session, hnoted, hclear, hchain⟩ := h
  intro hkind hnot
  rw [hchain]
  refine ⟨sessionId, hclear.named, ?_⟩
  rcases hclear.outcome hkind with hid | haborted
  · have hlater : Booked host w.committed := EachSession.noted (books_kept P) hbooked hnoted
    exact hlater.acceptedSealed sessionId session hclear.isOpen _ hid
  · rw [hnot] at haborted
    cases haborted

-- In every run each success or failure is stored after an attempt of its operation.
theorem run_correlated {P : Primitives} (hjcs : JcsFaithful P) (config : HostConfig) (calls : List Call) :
    Each CorrelatedWith (run P (World.new config) calls).chain := by
  have hstart : (World.new config).chain = [] := by simpa using (sound_new P config).chain
  have hrun := run_induction (P := P)
    (I := fun w => Booked w.host w.committed ∧ Each CorrelatedWith w.chain) (fun _ _ => True)
    (fun w committed pending call w' hsound _ hmoves _ hI => by
      refine ⟨(books_kept P).moves hjcs hsound hI.1 hmoves, each_moves hsound hI.2 hmoves ?_⟩
      intro adopted settled record _ hsettles hextends
      exact hextends.correlated ((books_kept P).settles hsound hI.1 hsettles))
    (sound_new P config) ⟨(books_kept P).run hjcs config [], by rw [hstart]; exact Each.nil⟩ calls
    fun _ _ _ _ => trivial
  exact hrun.1.2

end AuditableMcp
