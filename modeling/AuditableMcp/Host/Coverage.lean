import AuditableMcp.Host.Runs

namespace AuditableMcp

-- A session that has lost no decision, no terminal outcome and no number received.
structure Kept (before after : Session) : Prop where
  terminal : ∀ id, (before.terminal.get id).isSome = true → (after.terminal.get id).isSome = true
  decided : ∀ keyId signerSeq, before.hasDecided keyId signerSeq → after.hasDecided keyId signerSeq
  reached : ∀ keyId signerSeq, before.hasReached keyId signerSeq → after.hasReached keyId signerSeq

theorem Kept.refl (session : Session) : Kept session session := ⟨fun _ h => h, fun _ _ h => h, fun _ _ h => h⟩

theorem Kept.trans {a b c : Session} (hab : Kept a b) (hbc : Kept b c) : Kept a c :=
  ⟨fun id h => hbc.terminal id (hab.terminal id h), fun k n h => hbc.decided k n (hab.decided k n h),
    fun k n h => hbc.reached k n (hab.reached k n h)⟩

theorem SameSession.toKept {before after : Session} (h : SameSession before after) : Kept before after :=
  ⟨fun id hs => by rw [h.terminal]; exact hs, h.decided, h.reached⟩

-- Every session that is open afterwards was open before, and has been kept.
def SessionsKept (before after : AuditHost) : Prop :=
  ∀ sessionId later, after.sessions.get sessionId = some later →
    ∃ session, before.sessions.get sessionId = some session ∧ Kept session later

namespace SessionsKept

theorem trans {a b c : AuditHost} (hab : SessionsKept a b) (hbc : SessionsKept b c) : SessionsKept a c := by
  intro sessionId later h
  obtain ⟨middle, hm, hkept'⟩ := hbc sessionId later h
  obtain ⟨session, hs, hkept⟩ := hab sessionId middle hm
  exact ⟨session, hs, hkept.trans hkept'⟩

theorem of_sessions_eq {before after : AuditHost} (h : after.sessions = before.sessions) :
    SessionsKept before after := fun sessionId later hl => ⟨later, by rw [← h]; exact hl, .refl later⟩

theorem of_noted {before after : AuditHost} (h : Noted before after) : SessionsKept before after := by
  intro sessionId later hl
  obtain ⟨session, hs, hsame⟩ := h.only sessionId later hl
  exact ⟨session, hs, hsame.toKept⟩

theorem modifySession (host : AuditHost) (sessionId : JsString) (change : Session → Session)
    (hchange : ∀ session, Kept session (change session)) :
    SessionsKept host (host.modifySession sessionId change) := by
  intro other later h
  rw [host.get_modifySession] at h
  by_cases ho : sessionId = other
  · subst ho
    obtain ⟨session, hs, rfl⟩ : ∃ s, host.sessions.get sessionId = some s ∧ change s = later := by simpa using h
    exact ⟨session, hs, hchange session⟩
  · exact ⟨later, by simpa [ho] using h, .refl later⟩

theorem acceptId (host : AuditHost) (sessionId id : JsString) : SessionsKept host (host.acceptId sessionId id) :=
  modifySession host sessionId _ fun _ => ⟨fun _ h => h, fun _ _ h => h, fun _ _ h => h⟩

theorem kept_set_terminal (session : Session) (id digest : JsString) :
    Kept session { session with terminal := session.terminal.set id digest } := by
  refine ⟨fun other h => ?_, fun _ _ h => h, fun _ _ h => h⟩
  simp only [OrderedMap.get_set]
  split
  · rfl
  · exact h

theorem setTerminal (host : AuditHost) (sessionId id digest : JsString) :
    SessionsKept host (host.setTerminal sessionId id digest) :=
  modifySession host sessionId _ fun session => kept_set_terminal session id digest

theorem committing (host : AuditHost) (record : SealedRecord) (digest : JsString) :
    SessionsKept host (host.committing record digest) :=
  of_sessions_eq (committing_fields host record digest).2.2.2.1

theorem sealing (host : AuditHost) (record : SealedRecord) (digest sessionId : JsString) :
    SessionsKept host (host.sealing record digest sessionId) := by
  have hdecide := (committing host record digest).trans
    (of_noted (Noted.decide (host.committing record digest) record.event sessionId))
  simp only [AuditHost.sealing]
  split
  · exact hdecide.trans (acceptId _ _ _)
  · exact hdecide.trans (setTerminal _ _ _ _)

theorem adopting (host : AuditHost) (record : SealedRecord) (digest sessionId : JsString) :
    SessionsKept host (host.adopting record digest sessionId) := by
  have hcommit := committing host record digest
  simp only [AuditHost.adopting]
  split
  · exact (hcommit.trans (acceptId _ _ _)).trans (of_sessions_eq rfl)
  · exact hcommit.trans (of_sessions_eq rfl)

end SessionsKept

-- Every open session has on its books what `T` asks for each record the host committed in it.
def Covered (T : Session → SealedRecord → Prop) (w : World) : Prop :=
  ∀ sessionId session, w.host.sessions.get sessionId = some session →
    ∀ record ∈ w.committed, inSession record sessionId → T session record

-- A property of chains that the sessions' books let the host keep: what a book must
-- hold (`T`), what two records of the chain must not do (`R`), on which hosts (`G`).
structure Tracked (P : Primitives) (G : HostConfig → Prop) (T : Session → SealedRecord → Prop)
    (R : SealedRecord → SealedRecord → Prop) : Prop where
  keeps : ∀ before after record, Kept before after → T before record → T after record
  seals : ∀ (host : AuditHost) record digest sessionId session, G host.config →
    (host.sealing record digest sessionId).sessions.get sessionId = some session → T session record
  restores : ∀ sessionId records session, restoredSession P sessionId records = .ok session →
    ∀ record ∈ records, Admissible record.event → inSession record sessionId → T session record
  clears : ∀ host sessionId session record, G host.config → Cleared P host record.event sessionId session →
    ∀ other, (inSession other sessionId → T session other) → R other record

namespace Covered

variable {P : Primitives} {G : HostConfig → Prop} {T : Session → SealedRecord → Prop}
  {R : SealedRecord → SealedRecord → Prop} {w w' : World} {committed pending : List SealedRecord}

theorem of_kept (hT : Tracked P G T R) (h : Covered T w) (hkept : SessionsKept w.host w'.host)
    (hcommitted : w'.committed = w.committed) : Covered T w' := by
  intro sessionId later hl record hr hin
  obtain ⟨session, hs, hk⟩ := hkept sessionId later hl
  rw [hcommitted] at hr
  exact hT.keeps session later record hk (h sessionId session hs record hr hin)

-- One record more is committed, and the book of its session, if it is open, has it.
theorem of_committed (hT : Tracked P G T R) (h : Covered T w) (hkept : SessionsKept w.host w'.host)
    (record : SealedRecord) (hcommitted : w'.committed = w.committed ++ [record])
    (hnew : ∀ sessionId session, w'.host.sessions.get sessionId = some session →
      inSession record sessionId → T session record) : Covered T w' := by
  intro sessionId later hl other ho hin
  rw [hcommitted] at ho
  rcases List.mem_append.mp ho with hm | hm
  · obtain ⟨session, hs, hk⟩ := hkept sessionId later hl
    exact hT.keeps session later other hk (h sessionId session hs other hm hin)
  · rw [List.mem_singleton.mp hm] at hin ⊢
    exact hnew sessionId later hl hin

theorem settles (hT : Tracked P G T R) (hsound : Sound P w committed pending) (h : Covered T w)
    {adopted : Option SealedRecord} (hs : Settles P w adopted w')
    (hadopted : ∀ record sessionId, adopted = some record → inSession record sessionId →
      w.host.sessions.has sessionId = true → ∀ session, T session record) : Covered T w' := by
  cases hs with
  | kept => exact h
  | confirmed hrepo hsame =>
      refine h.of_kept hT (.of_sessions_eq rfl) ?_
      rw [(hsound.confirmed hrepo hsame).2.committed_eq, hsound.committed_eq]
  | adopted record digest sessionId hlanded hdigest hsession =>
      refine h.of_committed hT (.adopting w.host record digest sessionId) record ?_ ?_
      · rw [(hsound.adopted hlanded hdigest).committed_eq, hsound.committed_eq]
      · intro sid later hl hin
        obtain ⟨session, hs, -⟩ := SessionsKept.adopting w.host record digest sessionId sid later hl
        exact hadopted record sid rfl hin ((OrderedMap.has_eq_true _ _).mpr ⟨session, hs⟩) later

theorem delivers (hT : Tracked P G T R) (hG : G w.host.config) (hsound : Sound P w committed pending)
    (h : Covered T w) {event : Json} {answered : Option SealedRecord} (hd : Delivers P event w w' answered) :
    Covered T w' := by
  cases hd with
  | noted host hnoted =>
      refine h.of_kept hT (.of_noted hnoted) ?_
      rw [(hsound.framed hnoted.framed).committed_eq, hsound.committed_eq]
  | repeated host sessionId record hnoted =>
      have hf := hnoted.framed.trans (framed_acceptId host sessionId (eventId event))
      refine h.of_kept hT ((SessionsKept.of_noted hnoted).trans (.acceptId host sessionId _)) ?_
      rw [(hsound.framed hf).committed_eq, hsound.committed_eq]
  | lost host hnoted hrepo =>
      refine h.of_kept hT ((SessionsKept.of_noted hnoted).trans (.of_sessions_eq rfl)) ?_
      rw [((hsound.framed hnoted.framed).lost hrepo).committed_eq, hsound.committed_eq]
  | landed host sessionId session record hnoted hclear hrepo hcont =>
      refine h.of_kept hT ((SessionsKept.of_noted hnoted).trans (.of_sessions_eq rfl)) ?_
      rw [((hsound.framed hnoted.framed).landed hclear hrepo hcont).committed_eq, hsound.committed_eq]
  | sealed host sessionId session record digest hnoted hclear hcont hdigest =>
      have hsealed := (hsound.framed hnoted.framed).sealing hclear hcont hdigest
      rw [show World.keeping (w.withHost host) record = w.keeping record from keeping_withHost hnoted record] at hsealed
      refine h.of_committed hT
        ((SessionsKept.of_noted hnoted).trans (.sealing host record digest sessionId)) record ?_ ?_
      · rw [hsealed.committed_eq, hsound.committed_eq]
      · intro sid later hl hin
        have hnamed : inSession record sessionId := by rw [inSession, hcont.carries]; exact hclear.named
        obtain rfl := inSession_unique hnamed hin
        exact hT.seals host record digest sessionId later (by rw [hnoted.config]; exact hG) hl

-- A restored session has every record of the chain on its books.
theorem resumed (hT : Tracked P G T R) (hsound : Sound P w committed pending) {config : HostConfig}
    {openSessions : List OpenSession} {host : AuditHost} (hrepo : config.repository = true)
    (hhost : AuditHost.resume P config w.stored openSessions = .ok host) : Covered T (w.withHost host) := by
  obtain ⟨hsound', hres⟩ := hsound.resumed hrepo hhost
  intro sid later hl record hr hin
  rw [hsound'.committed_eq] at hr
  obtain ⟨-, base, hbase, hsame⟩ := hres.restored sid later hl
  exact hT.keeps base later record hsame.toKept
    (hT.restores sid w.stored base hbase record hr (hsound.stored_admissible record hr) hin)

theorem moves (hT : Tracked P G T R) (hG : G w.host.config) (hsound : Sound P w committed pending)
    (h : Covered T w) {call : Call} (hm : Moves P w call w')
    (hadopted : ∀ record sessionId, call.adopts w = some record → inSession record sessionId →
      w.host.sessions.has sessionId = true → ∀ session, T session record) : Covered T w' := by
  have hcommitted := hsound.committed_eq
  cases hm with
  | stayed => exact h
  | delivered event adopted answered settled after hadopts hsettles hdelivers =>
      obtain ⟨_, _, hsettled⟩ := hsound.settles hsettles
      refine delivers hT (by rw [hsettles.config]; exact hG) hsettled (h.settles hT hsound hsettles ?_) hdelivers
      intro record sid hrecord
      subst hrecord
      exact hadopted record sid (hadopts (by simp)).symm
  | opened sessionId hfresh =>
      have hopened := hsound.opened sessionId
      intro sid session hs record hr hin
      rw [hopened.committed_eq, ← hcommitted] at hr
      rw [OrderedMap.get_set] at hs
      split at hs
      · rename_i he
        subst he
        have hchain : record ∈ w.chain := List.mem_of_mem_take hr
        exact absurd (hsound.issuedSealed record hchain sessionId hin) hfresh
      · exact h sid session hs record hr hin
  | closed sessionId host hnoted =>
      have hclosed := hsound.closed sessionId
      intro sid later hl record hr hin
      obtain ⟨session, hs, hsame⟩ := hnoted.only sid later hl
      rw [(hclosed.framed hnoted.framed).committed_eq, ← hcommitted] at hr
      rw [OrderedMap.get_delete] at hs
      split at hs
      · cases hs
      · exact hT.keeps session later record hsame.toKept (h sid session hs record hr hin)
  | toggled available =>
      refine h.of_kept hT (.of_sessions_eq rfl) rfl
  | resumed capability options openSessions config host hcall hconfig hhost =>
      exact resumed hT hsound (construct_fields hconfig).1 hhost

-- On whatever host a run stands in the end, if it is one in `G`.
theorem moves_when (hT : Tracked P G T R) (hsound : Sound P w committed pending)
    (h : G w.host.config → Covered T w) {call : Call} (hm : Moves P w call w')
    (hadopted : ∀ record sessionId, call.adopts w = some record → inSession record sessionId →
      w.host.sessions.has sessionId = true → ∀ session, T session record) (hG : G w'.host.config) : Covered T w' := by
  rcases hm.config_or_resumed with hconfig | ⟨config, openSessions, host, hrepo, hhost, rfl⟩
  · rw [hconfig] at hG
    exact (h hG).moves hT hG hsound hm hadopted
  · exact resumed hT hsound hrepo hhost

end Covered

-- The chain a covered host grows keeps `R` between any two of its records.
theorem pairwise_moves {P : Primitives} {G : HostConfig → Prop} {T : Session → SealedRecord → Prop}
    {R : SealedRecord → SealedRecord → Prop} (hT : Tracked P G T R) {w w' : World}
    {committed pending : List SealedRecord} (hG : G w.host.config) (hsound : Sound P w committed pending)
    (hcov : Covered T w) (hR : w.chain.Pairwise R) {call : Call} (hm : Moves P w call w')
    (hadopted : ∀ record sessionId, call.adopts w = some record → inSession record sessionId →
      w.host.sessions.has sessionId = true → ∀ session, T session record) :
    w'.chain.Pairwise R := by
  rw [← Each.iff_pairwise] at hR ⊢
  refine each_moves hsound hR hm ?_
  intro adopted settled record hadopts hsettles hextends other ho
  obtain ⟨host, sessionId, session, hnoted, hclear, hchain⟩ := hextends
  have hcov' : Covered T settled := hcov.settles hT hsound hsettles fun record sid hrecord => by
    subst hrecord
    exact hadopted record sid (hadopts (by simp)).symm
  refine hT.clears host sessionId session record (by rw [hnoted.config, hsettles.config]; exact hG) hclear
    other fun hin => ?_
  obtain ⟨before, hb, hsame⟩ := hnoted.only sessionId session hclear.isOpen
  rw [hchain] at ho
  exact hT.keeps before session other hsame.toKept (hcov' sessionId before hb other ho hin)

-- A tracked property, asked of the records of one session only.
theorem Tracked.within {P : Primitives} {G : HostConfig → Prop} {T : Session → SealedRecord → Prop}
    {R : SealedRecord → SealedRecord → Prop} (hT : Tracked P G T R) (sessionId : JsString) :
    Tracked P G (fun session record => inSession record sessionId → T session record)
      (fun first second => inSession second sessionId → R first second) where
  keeps := fun before after record hkept h hin => hT.keeps before after record hkept (h hin)
  seals := fun host record digest sid session hG hl _ => hT.seals host record digest sid session hG hl
  restores := fun sid records session h record hr hadm hin _ => hT.restores sid records session h record hr hadm hin
  clears := by
    intro host sid session record hG hclear other hother hin
    obtain rfl := inSession_unique hclear.named hin
    exact hT.clears host sid session record hG hclear other fun ho => hother ho ho

-- The run rule for a tracked property: no call adopts a record its open session's book
-- does not have, and the hosts of the run stay in `G`.
theorem run_covered {P : Primitives} {G : HostConfig → Prop} {T : Session → SealedRecord → Prop}
    {R : SealedRecord → SealedRecord → Prop} (hT : Tracked P G T R) {config : HostConfig} (hG : G config)
    (calls : List Call)
    (hstays : ∀ before call after, calls = before ++ call :: after →
      G (run P (World.new config) before).host.config →
      G (perform P (run P (World.new config) before) call).1.host.config)
    (hadopted : ∀ before call after, calls = before ++ call :: after →
      ∀ record sessionId, call.adopts (run P (World.new config) before) = some record →
        inSession record sessionId →
        (run P (World.new config) before).host.sessions.has sessionId = true → ∀ session, T session record) :
    Covered T (run P (World.new config) calls) ∧ (run P (World.new config) calls).chain.Pairwise R := by
  have hstart : (World.new config).chain = [] := by
    simpa using (sound_new P config).chain
  have hrun := run_induction (P := P)
    (I := fun w => G w.host.config ∧ Covered T w ∧ w.chain.Pairwise R)
    (fun w call => (G w.host.config → G (perform P w call).1.host.config) ∧
      ∀ record sessionId, call.adopts w = some record → inSession record sessionId →
        w.host.sessions.has sessionId = true → ∀ session, T session record)
    (fun w committed pending call w' hsound hgood hmoves hw hI => by
      obtain ⟨hGw, hcov, hR⟩ := hI
      refine ⟨by rw [hw]; exact hgood.1 hGw, hcov.moves hT hGw hsound hmoves hgood.2,
        pairwise_moves hT hGw hsound hcov hR hmoves hgood.2⟩)
    (sound_new P config)
    ⟨hG, fun sessionId session h => by simp [World.new, AuditHost.new] at h, by rw [hstart]; exact .nil⟩
    calls fun before call after hsplit => ⟨hstays before call after hsplit, hadopted before call after hsplit⟩
  exact hrun.1.2

theorem run_tracked {P : Primitives} {G : HostConfig → Prop} {T : Session → SealedRecord → Prop}
    {R : SealedRecord → SealedRecord → Prop} (hT : Tracked P G T R) {config : HostConfig} (hG : G config)
    (calls : List Call)
    (hstays : ∀ before call after, calls = before ++ call :: after →
      G (run P (World.new config) before).host.config →
      G (perform P (run P (World.new config) before) call).1.host.config)
    (hadopted : ∀ before call after, calls = before ++ call :: after →
      ∀ record sessionId, call.adopts (run P (World.new config) before) = some record →
        inSession record sessionId →
        (run P (World.new config) before).host.sessions.has sessionId = true → ∀ session, T session record) :
    (run P (World.new config) calls).chain.Pairwise R := (run_covered hT hG calls hstays hadopted).2

theorem run_covered_when {P : Primitives} {G : HostConfig → Prop} {T : Session → SealedRecord → Prop}
    {R : SealedRecord → SealedRecord → Prop} (hT : Tracked P G T R) (config : HostConfig) (calls : List Call)
    (hadopted : ∀ before call after, calls = before ++ call :: after →
      ∀ record sessionId, call.adopts (run P (World.new config) before) = some record →
        inSession record sessionId →
        (run P (World.new config) before).host.sessions.has sessionId = true → ∀ session, T session record)
    (hG : G (run P (World.new config) calls).host.config) : Covered T (run P (World.new config) calls) := by
  refine (run_induction (P := P) (I := fun w => G w.host.config → Covered T w)
    (fun w call => ∀ record sessionId, call.adopts w = some record → inSession record sessionId →
      w.host.sessions.has sessionId = true → ∀ session, T session record)
    (fun w committed pending call w' hsound hgood hmoves _ hI => Covered.moves_when hT hsound hI hmoves hgood)
    (sound_new P config) (fun _ sessionId session h => ?_) calls hadopted).1 hG
  simp [World.new, AuditHost.new] at h

end AuditableMcp
