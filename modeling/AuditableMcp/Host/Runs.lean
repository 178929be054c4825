import AuditableMcp.Host.Restart
import AuditableMcp.Library.Each

namespace AuditableMcp

theorem tailUnchanged_some {record : SealedRecord} {ledger : Ledger}
    (h : tailUnchanged (some record) ledger = true) : record.seq + 1 = ledger.count := by
  simp only [tailUnchanged, Bool.and_eq_true, decide_eq_true_eq] at h
  exact h.1

namespace Sound

variable {P : Primitives} {w w' : World} {committed pending : List SealedRecord}

-- A tail the host already has leaves nothing pending.
theorem confirmed (h : Sound P w committed pending) (hrepo : w.host.config.repository = true)
    (hsame : tailUnchanged w.stored.getLast? w.host.ledger = true) :
    pending = [] ∧ Sound P (w.withHost { w.host with tailUncertain := false }) committed [] := by
  have hpending : pending = [] := by
    rcases h.doubt with hp | ⟨record, hp, -⟩
    · exact hp
    · have hstored : w.stored = committed ++ [record] := by rw [← chain_of_repository hrepo, h.chain, hp]
      have hlast : w.stored.getLast? = some record := by simp [hstored]
      have hlength := isChain_length P h.soundChain.linked (by rw [chain_of_repository hrepo]; exact hlast)
      rw [hlast] at hsame
      have hcount := tailUnchanged_some hsame
      rw [h.count] at hcount
      rw [chain_of_repository hrepo, hstored] at hlength
      simp only [List.length_append, List.length_singleton] at hlength
      omega
  subst hpending
  exact ⟨rfl, { h with
    doubt := Or.inl rfl
    memory := fun hmem => by simp [hrepo] at hmem
    tables := ⟨h.tables.attempts, h.tables.digests⟩ }⟩

-- A record that landed is the pending one.
theorem pending_of_landed (h : Sound P w committed pending) {record : SealedRecord} (hl : Landed w record) :
    pending = [record] ∧ w.chain = committed ++ [record] := by
  have hchain := chain_of_repository hl.repository
  have hlength := isChain_length P h.soundChain.linked (by rw [hchain]; exact hl.last)
  rcases h.doubt with hp | ⟨other, hp, -⟩
  · rw [h.chain, hp, List.append_nil, hl.seq, h.count] at hlength
    omega
  · have hlast := hl.last
    rw [← hchain, h.chain, hp] at hlast
    obtain rfl : other = record := by simpa using hlast
    exact ⟨hp, by rw [h.chain, hp]⟩

theorem adopted (h : Sound P w committed pending) {record : SealedRecord} {digest sessionId : JsString}
    (hl : Landed w record) (hdigest : digestOf P record.event = .ok digest) :
    Sound P (w.withHost (w.host.adopting record digest sessionId)) (committed ++ [record]) [] := by
  obtain ⟨-, hpend⟩ := h.pending_of_landed hl
  have hnew : isAttempted record.event = true → w.host.sealedAttempts.get (eventId record.event) = none := by
    intro hkind
    cases hget : w.host.sealedAttempts.get (eventId record.event) with
    | none => rfl
    | some other =>
        obtain ⟨hm, hk, he⟩ := (h.tables.attempts _ other).mp hget
        have hids := h.soundChain.attemptIds
        rw [hpend] at hids
        exact absurd he ((List.pairwise_append.mp hids).2.2 other hm record (by simp) hk hkind)
  obtain ⟨hconfig, hledger, hissued, hsessions, -⟩ := committing_fields w.host record digest
  have hchain : World.chain (w.withHost { w.host.committing record digest with tailUncertain := false }) =
      w.chain := by simp [World.chain, hconfig, hl.repository]
  have hbase : Sound P (w.withHost { w.host.committing record digest with tailUncertain := false })
      (committed ++ [record]) [] :=
    { chain := by rw [hchain, hpend, List.append_nil]
      count := by simp [hledger, Ledger.commit, h.count]
      tailHash := by simp [hledger, Ledger.commit]
      doubt := Or.inl rfl
      memory := fun hmem => by simp [hconfig, hl.repository] at hmem
      soundChain := by rw [hchain]; exact h.soundChain
      tables := ⟨(h.tables.committing hnew hdigest).attempts, (h.tables.committing hnew hdigest).digests⟩
      issuedOpen := by
        simp only [hsessions, hissued]
        exact h.issuedOpen
      issuedSealed := by
        rw [hchain]
        simp only [hissued]
        exact h.issuedSealed }
  exact hbase.framed (framed_adopting w.host record digest sessionId)

theorem settles (h : Sound P w committed pending) {adopted : Option SealedRecord} (hs : Settles P w adopted w') :
    ∃ committed' pending', Sound P w' committed' pending' := by
  cases hs with
  | kept => exact ⟨_, _, h⟩
  | confirmed hrepo hsame => exact ⟨_, _, (h.confirmed hrepo hsame).2⟩
  | adopted record digest sessionId hlanded hdigest hsession => exact ⟨_, _, h.adopted hlanded hdigest⟩

theorem delivers (h : Sound P w committed pending) {event : Json} {answered : Option SealedRecord}
    (hd : Delivers P event w w' answered) : ∃ committed' pending', Sound P w' committed' pending' := by
  cases hd with
  | noted host hnoted => exact ⟨_, _, h.framed hnoted.framed⟩
  | repeated host sessionId record hnoted =>
      exact ⟨_, _, h.framed (hnoted.framed.trans (framed_acceptId host sessionId _))⟩
  | lost host hnoted hrepo => exact ⟨_, _, (h.framed hnoted.framed).lost hrepo⟩
  | landed host sessionId session record hnoted hclear hrepo hcont =>
      exact ⟨_, _, (h.framed hnoted.framed).landed hclear hrepo hcont⟩
  | sealed host sessionId session record digest hnoted hclear hcont hdigest =>
      have := (h.framed hnoted.framed).sealing hclear hcont hdigest
      rw [show World.keeping (w.withHost host) record = w.keeping record from keeping_withHost hnoted record] at this
      exact ⟨_, _, this⟩

theorem opened (h : Sound P w committed pending) (sessionId : JsString) :
    Sound P (w.withHost { w.host with
      issued := addTo w.host.issued sessionId
      sessions := w.host.sessions.set sessionId Session.new }) committed pending :=
  { h with
    tables := ⟨h.tables.attempts, h.tables.digests⟩
    issuedOpen := by
      intro other ho
      obtain ⟨session, hs⟩ := (OrderedMap.has_eq_true _ _).mp ho
      rw [OrderedMap.get_set] at hs
      split at hs
      · rename_i he
        simp [he]
      · exact (mem_addTo _ _ _).mpr (Or.inl (h.issuedOpen other ((OrderedMap.has_eq_true _ _).mpr ⟨session, hs⟩)))
    issuedSealed := fun record hr other ho => (mem_addTo _ _ _).mpr (Or.inl (h.issuedSealed record hr other ho)) }

theorem closed (h : Sound P w committed pending) (sessionId : JsString) :
    Sound P (w.withHost { w.host with sessions := w.host.sessions.delete sessionId }) committed pending :=
  { h with
    tables := ⟨h.tables.attempts, h.tables.digests⟩
    issuedOpen := by
      intro other ho
      obtain ⟨session, hs⟩ := (OrderedMap.has_eq_true _ _).mp ho
      rw [OrderedMap.get_delete] at hs
      split at hs
      · cases hs
      · exact h.issuedOpen other ((OrderedMap.has_eq_true _ _).mpr ⟨session, hs⟩) }

theorem moves (h : Sound P w committed pending) {call : Call} (hm : Moves P w call w') :
    ∃ committed' pending', Sound P w' committed' pending' := by
  cases hm with
  | stayed => exact ⟨_, _, h⟩
  | delivered event adopted answered settled after hadopts hsettles hdelivers =>
      obtain ⟨committed', pending', hsettled⟩ := h.settles hsettles
      exact hsettled.delivers hdelivers
  | opened sessionId hfresh => exact ⟨_, _, h.opened sessionId⟩
  | closed sessionId host hnoted => exact ⟨_, _, (h.closed sessionId).framed hnoted.framed⟩
  | toggled available => exact ⟨_, _, h.framed ⟨rfl, rfl, rfl, rfl, rfl, rfl, fun _ => rfl⟩⟩
  | resumed capability options openSessions config host hcall hconfig hhost =>
      exact ⟨_, _, (h.resumed (construct_fields hconfig).1 hhost).1⟩

end Sound

theorem Delivers.config {P : Primitives} {event : Json} {w w' : World} {answered : Option SealedRecord}
    (h : Delivers P event w w' answered) : w'.host.config = w.host.config := by
  cases h with
  | noted host hnoted => exact hnoted.config
  | repeated host sessionId record hnoted => exact (framed_acceptId host sessionId _).config.trans hnoted.config
  | lost host hnoted => exact hnoted.config
  | landed host sessionId session record hnoted => exact hnoted.config
  | sealed host sessionId session record digest hnoted =>
      exact (framed_sealing host record digest sessionId).config.trans
        ((committing_fields host record digest).1.trans hnoted.config)

theorem Settles.config {P : Primitives} {w w' : World} {adopted : Option SealedRecord}
    (h : Settles P w adopted w') : w'.host.config = w.host.config := by
  cases h with
  | kept => rfl
  | confirmed => rfl
  | adopted record digest sessionId =>
      exact (framed_adopting w.host record digest sessionId).config.trans (committing_fields w.host record digest).1

theorem Settles.chain {P : Primitives} {w w' : World} {adopted : Option SealedRecord}
    (h : Settles P w adopted w') : w'.chain = w.chain := by
  cases h with
  | kept => rfl
  | confirmed => rfl
  | adopted record digest sessionId hlanded =>
      have hconfig := (framed_adopting w.host record digest sessionId).config.trans
        (committing_fields w.host record digest).1
      simp [World.chain, hconfig, hlanded.repository]

-- A record a host in this world, whose chain is known, was cleared to seal.
def Extends (P : Primitives) (w : World) (record : SealedRecord) : Prop :=
  ∃ host sessionId session, Noted w.host host ∧ Cleared P host record.event sessionId session ∧
    w.chain = w.committed

-- A delivery leaves the chain alone, or appends one record it was cleared for.
theorem Delivers.chain {P : Primitives} {event : Json} {w w' : World} {committed pending : List SealedRecord}
    {answered : Option SealedRecord} (hsound : Sound P w committed pending)
    (h : Delivers P event w w' answered) :
    w'.chain = w.chain ∨ ∃ record, Extends P w record ∧ w'.chain = w.chain ++ [record] := by
  have hcommitted := hsound.committed_eq
  cases h with
  | noted host hnoted => exact Or.inl (by simp [World.chain, hnoted.config, hnoted.ledger])
  | repeated host sessionId record hnoted =>
      have hf := hnoted.framed.trans (framed_acceptId host sessionId (eventId event))
      exact Or.inl (by simp [World.chain, hf.config, hf.ledger])
  | lost host hnoted => exact Or.inl (by simp [World.chain, hnoted.config, hnoted.ledger])
  | landed host sessionId session record hnoted hclear hrepo hcont =>
      refine Or.inr ⟨record, ⟨host, sessionId, session, hnoted, by rw [hcont.carries]; exact hclear, ?_⟩, ?_⟩
      · rw [hcommitted, ← ((hsound.framed hnoted.framed).settled hclear.known).2]
        simp [World.chain, hnoted.config, hnoted.ledger]
      · simp [World.chain, ← hnoted.config, hrepo]
  | sealed host sessionId session record digest hnoted hclear hcont hdigest =>
      refine Or.inr ⟨record, ⟨host, sessionId, session, hnoted, by rw [hcont.carries]; exact hclear, ?_⟩, ?_⟩
      · rw [hcommitted, ← ((hsound.framed hnoted.framed).settled hclear.known).2]
        simp [World.chain, hnoted.config, hnoted.ledger]
      · have hf := framed_sealing host record digest sessionId
        obtain ⟨hconfig, hledger, -⟩ := committing_fields host record digest
        exact Sound.chain_keeping (by rw [hf.config, hconfig, hnoted.config])
          (by rw [hf.ledger, hledger, hnoted.ledger])

-- The rule for the chain of a run: what each record is to the records before it, as far
-- as the world it was cleared in shows.
theorem each_moves {P : Primitives} {Q : List SealedRecord → SealedRecord → Prop} {w w' : World}
    {committed pending : List SealedRecord} (hsound : Sound P w committed pending) (hQ : Each Q w.chain)
    {call : Call} (hm : Moves P w call w')
    (hnew : ∀ adopted settled record, (adopted ≠ none → adopted = call.adopts w) →
      Settles P w adopted settled → Extends P settled record → Q settled.chain record) : Each Q w'.chain := by
  cases hm with
  | stayed => exact hQ
  | opened => exact hQ
  | toggled => exact hQ
  | closed sessionId host hnoted =>
      have hchain : World.chain (w.withHost host) = w.chain := by
        simp [World.chain, hnoted.config, hnoted.ledger]
      rw [hchain]
      exact hQ
  | resumed capability options openSessions config host hcall hconfig hhost =>
      have hrepo := (construct_fields hconfig).1
      have hchain : World.chain (w.withHost host) = w.stored := by
        simp [World.chain, (hsound.resumed hrepo hhost).2.config, hrepo]
      rw [hchain]
      cases hrepo' : w.host.config.repository with
      | true => rwa [← Sound.chain_of_repository hrepo']
      | false => rw [(hsound.memory hrepo').1]; exact Each.nil
  | delivered event adopted answered settled after hadopts hsettles hdelivers =>
      obtain ⟨_, _, hsettled⟩ := hsound.settles hsettles
      rw [← hsettles.chain] at hQ
      rcases hdelivers.chain hsettled with hsame | ⟨record, hextends, hgrown⟩
      · rw [hsame]
        exact hQ
      · rw [hgrown]
        exact (Each.append_singleton _ _).mpr ⟨hQ, hnew adopted settled record hadopts hsettles hextends⟩

-- Only a restart changes the configuration.
theorem Moves.config_or_resumed {P : Primitives} {w w' : World} {call : Call} (h : Moves P w call w') :
    w'.host.config = w.host.config ∨ ∃ config openSessions host, config.repository = true ∧
      AuditHost.resume P config w.stored openSessions = .ok host ∧ w' = w.withHost host := by
  cases h with
  | stayed => exact Or.inl rfl
  | delivered event adopted answered settled after hadopts hsettles hdelivers =>
      exact Or.inl (hdelivers.config.trans hsettles.config)
  | opened sessionId hfresh => exact Or.inl rfl
  | closed sessionId host hnoted => exact Or.inl hnoted.config
  | toggled available => exact Or.inl rfl
  | resumed capability options openSessions config host hcall hconfig hhost =>
      exact Or.inr ⟨config, openSessions, host, (construct_fields hconfig).1, hhost, rfl⟩

theorem sound_new (P : Primitives) (config : HostConfig) : Sound P (World.new config) [] [] :=
  { chain := by cases h : config.repository <;> simp [World.chain, World.new, AuditHost.new, Ledger.new, h]
    count := rfl
    tailHash := rfl
    doubt := Or.inl rfl
    memory := fun _ => ⟨rfl, rfl⟩
    soundChain := by
      have : World.chain (World.new config) = [] := by
        cases h : config.repository <;> simp [World.chain, World.new, AuditHost.new, Ledger.new, h]
      rw [this]
      exact ⟨isChain_nil P, by simp, .nil, by simp⟩
    tables := tables_nil rfl rfl
    issuedOpen := by
      intro sid hs
      simp [World.new, AuditHost.new, OrderedMap.has] at hs
    issuedSealed := by
      have : World.chain (World.new config) = [] := by
        cases h : config.repository <;> simp [World.chain, World.new, AuditHost.new, Ledger.new, h]
      rw [this]
      simp }

theorem run_append (P : Primitives) (w : World) (before after : List Call) :
    run P w (before ++ after) = run P (run P w before) after := by
  simp [run]

-- The rule for runs: what holds of the first world and is kept by every move of a
-- sound world holds of the last one.
theorem run_induction {P : Primitives} {I : World → Prop} (good : World → Call → Prop)
    (hstep : ∀ w committed pending call w', Sound P w committed pending → good w call →
      Moves P w call w' → w' = (perform P w call).1 → I w → I w')
    {w : World} {committed pending : List SealedRecord} (hsound : Sound P w committed pending) (hstart : I w)
    (calls : List Call)
    (hgood : ∀ before call after, calls = before ++ call :: after → good (run P w before) call) :
    I (run P w calls) ∧ ∃ committed' pending', Sound P (run P w calls) committed' pending' := by
  induction calls using List.reverseRecOn with
  | nil => exact ⟨hstart, _, _, hsound⟩
  | append_singleton calls call ih =>
      obtain ⟨hI, committed', pending', hs⟩ :=
        ih fun before c after hsplit => hgood before c (after ++ [call]) (by rw [hsplit]; simp)
      have hmoves := perform_moves (P := P) call hs.stored_admissible
      have hlast := hgood calls call [] rfl
      rw [run_append]
      exact ⟨hstep _ _ _ call _ hs hlast hmoves rfl hI, hs.moves hmoves⟩

theorem run_sound {P : Primitives} {w : World} {committed pending : List SealedRecord}
    (hsound : Sound P w committed pending) (calls : List Call) :
    ∃ committed' pending', Sound P (run P w calls) committed' pending' :=
  (run_induction (I := fun _ => True) (fun _ _ => True) (fun _ _ _ _ _ _ _ _ _ _ => trivial) hsound
    trivial calls fun _ _ _ _ => trivial).2

end AuditableMcp
