import AuditableMcp.Host.Runs
import AuditableMcp.Reference.Events
import AuditableMcp.Reference.Primitives

namespace AuditableMcp

theorem IsChain.getElem?_seq {P : Primitives} {chain : List SealedRecord} (h : IsChain P chain)
    {record : SealedRecord} (hr : record ∈ chain) : chain[record.seq]? = some record := by
  obtain ⟨i, hi, rfl⟩ := List.mem_iff_getElem.mp hr
  have hseq := h.seq i chain[i] (List.getElem?_eq_getElem hi)
  rw [hseq, List.getElem?_eq_getElem hi]

-- Each record links to the one before it.
theorem IsChain.previous_hash {P : Primitives} {chain : List SealedRecord} (h : IsChain P chain) :
    ∀ (i : Nat) (record : SealedRecord), chain[i]? = some record →
      record.previous_hash = tailHashOf (chain.take i) := by
  induction chain using List.reverseRecOn with
  | nil => simp
  | append_singleton init last ih =>
      obtain ⟨hinit, -, hprev, -⟩ := (isChain_append_singleton P init last).mp h
      intro i record hi
      rcases Nat.lt_or_ge i init.length with hlt | hge
      · rw [List.getElem?_append_left hlt] at hi
        rw [List.take_append_of_le_length (Nat.le_of_lt hlt)]
        exact ih hinit i record hi
      · obtain ⟨hle, -⟩ := List.getElem?_eq_some_iff.mp hi
        obtain rfl : i = init.length := by simp at hle; omega
        obtain rfl : last = record := by simpa using hi
        simpa using hprev

theorem tailHashOf_take_succ (chain : List SealedRecord) {i : Nat} {record : SealedRecord}
    (hi : chain[i]? = some record) : tailHashOf (chain.take (i + 1)) = record.record_hash := by
  rw [List.take_add_one, hi]
  exact tailHashOf_append_singleton _ _

theorem acceptOf_together {record : SealedRecord} (h : CountersignedTogether record) :
    acceptOf record = .accept ⟨record.seq, record.record_hash, record.host_ts, record.previous_hash,
      record.host_signature, record.host_key_id, record.log_id⟩ := by
  obtain ⟨hkey, hlog⟩ := h
  unfold acceptOf accept
  cases hs : record.host_signature <;> cases hk : record.host_key_id <;> cases hl : record.log_id <;> simp_all

-- Nothing that is stored is ever taken back.
theorem Moves.stored_prefix {P : Primitives} {w w' : World} {call : Call}
    (h : Moves P w call w') : w.stored <+: w'.stored := by
  cases h with
  | stayed => exact List.prefix_refl _
  | opened => exact List.prefix_refl _
  | closed => exact List.prefix_refl _
  | toggled => exact List.prefix_refl _
  | resumed => exact List.prefix_refl _
  | delivered event adopted answered settled after hadopts hsettles hdelivers =>
      have hsettled : settled.stored = w.stored := by cases hsettles <;> rfl
      rw [← hsettled]
      cases hdelivers with
      | noted => exact List.prefix_refl _
      | repeated => exact List.prefix_refl _
      | lost => exact List.prefix_refl _
      | landed => exact List.prefix_append _ _
      | sealed host sessionId session record =>
          simp only [World.keeping]
          split
          · exact List.prefix_append _ _
          · exact List.prefix_refl _

theorem Moves.repository {P : Primitives} {w w' : World} {committed pending : List SealedRecord}
    {call : Call} (hsound : Sound P w committed pending) (h : Moves P w call w')
    (hrepo : w.host.config.repository = true) : w'.host.config.repository = true := by
  cases h with
  | stayed => exact hrepo
  | opened => exact hrepo
  | closed sessionId host hnoted => rw [hnoted.config]; exact hrepo
  | toggled => exact hrepo
  | resumed capability options openSessions config host hcall hconfig hhost =>
      have hrepo' := (construct_fields hconfig).1
      rw [(hsound.resumed hrepo' hhost).2.config]
      exact hrepo'
  | delivered event adopted answered settled after hadopts hsettles hdelivers =>
      rw [hdelivers.config, hsettles.config]
      exact hrepo

-- The record an answer is made from is in the chain by then.
theorem Delivers.answered_mem {P : Primitives} {event : Json} {w w' : World} {committed pending : List SealedRecord}
    {record : SealedRecord} (hsound : Sound P w committed pending)
    (h : Delivers P event w w' (some record)) : record ∈ w'.chain := by
  cases h with
  | repeated host sessionId record hnoted hadm hnamed hrecord hsame =>
      rw [hnoted.sealedAttempts] at hrecord
      obtain ⟨hmem, -⟩ := (hsound.tables.attempts _ record).mp hrecord
      have hf := hnoted.framed.trans (framed_acceptId host sessionId (eventId event))
      rw [(hsound.framed hf).chain]
      exact List.mem_append_left _ hmem
  | sealed host sessionId session record digest hnoted hclear hcont hdigest =>
      have hsealed := (hsound.framed hnoted.framed).sealing hclear hcont hdigest
      rw [show World.keeping (w.withHost host) record = w.keeping record from keeping_withHost hnoted record] at hsealed
      rw [hsealed.chain]
      simp

-- An accept is an answer from a record of the chain.
theorem accept_mem_chain {P : Primitives} {w : World} {committed pending : List SealedRecord}
    (hsound : Sound P w committed pending) {answers : Answers} {event : Json} {expected : Option JsString}
    {expired : Bool} {response : AcceptResponse}
    (h : (perform P w (.attempt answers event expected expired)).2 = .attempt (.accept response)) :
    ∃ record ∈ (perform P w (.attempt answers event expected expired)).1.chain,
      acceptOf record = .accept response := by
  obtain ⟨adopted, settled, answered, hsettles, -, hdelivers, hanswered⟩ :=
    handleAttempt_delivers (P := P) answers event expected expired hsound.stored_admissible
  simp only [perform, World.replying] at h ⊢
  cases hr : handleAttempt P answers event expected expired w with
  | mk after result =>
      simp only [hr] at h hdelivers hanswered
      cases result with
      | error e => simp at h
      | ok reply =>
          simp only [Reply.attempt.injEq] at h
          obtain ⟨record, rfl, haccept⟩ := hanswered response (by rw [h])
          obtain ⟨committed', pending', hsettled⟩ := hsound.settles hsettles
          exact ⟨record, hdelivers.answered_mem hsettled, haccept⟩

theorem run_repository {P : Primitives} {w : World} {committed pending : List SealedRecord}
    (hsound : Sound P w committed pending) (hrepo : w.host.config.repository = true) (calls : List Call) :
    (run P w calls).host.config.repository = true :=
  (run_induction (I := fun w => w.host.config.repository = true) (fun _ _ => True)
    (fun _ _ _ _ _ hs _ hm _ hI => hm.repository hs hI) hsound hrepo calls fun _ _ _ _ => trivial).1

theorem run_stored_prefix {P : Primitives} {w : World} {committed pending : List SealedRecord}
    (hsound : Sound P w committed pending) (calls : List Call) : w.stored <+: (run P w calls).stored :=
  (run_induction (I := fun later => w.stored <+: later.stored) (fun _ _ => True)
    (fun _ _ _ _ _ _ _ hm _ hI => hI.trans hm.stored_prefix) hsound (List.prefix_refl _) calls
    fun _ _ _ _ => trivial).1

-- What a host's own chain state says about the store, whatever failed on the way.
structure CrashConsistent (w : World) : Prop where
  described : w.host.ledger.count ≤ w.stored.length ∧
    w.host.ledger.digest = tailHashOf (w.stored.take w.host.ledger.count)
  inDoubt : w.stored.length = w.host.ledger.count ∨
    (w.stored.length = w.host.ledger.count + 1 ∧ w.host.tailUncertain = true)
  seq : ∀ (i : Nat) (record : SealedRecord), w.stored[i]? = some record → record.seq = i
  genesis : ∀ record, w.stored[0]? = some record → record.previous_hash = GENESIS_HASH
  previous_hash : ∀ (i : Nat) (first second : SealedRecord), w.stored[i]? = some first →
    w.stored[i + 1]? = some second → second.previous_hash = first.record_hash

theorem Sound.crashConsistent {P : Primitives} {w : World} {committed pending : List SealedRecord}
    (h : Sound P w committed pending) (hrepo : w.host.config.repository = true) : CrashConsistent w := by
  have hstored := Sound.chain_of_repository hrepo
  have hlinked := h.soundChain.linked
  have hcommitted := h.committed_eq
  rw [World.committed, hstored] at hcommitted
  rw [hstored] at hlinked
  have hlength : w.stored.length = w.host.ledger.count + pending.length := by
    rw [← hstored, h.chain, List.length_append, h.count]
  refine ⟨⟨by omega, ?_⟩, ?_, hlinked.seq, ?_, ?_⟩
  · rw [hcommitted]
    exact h.tailHash
  · rcases h.doubt with rfl | ⟨record, rfl, hu⟩
    · exact Or.inl hlength
    · exact Or.inr ⟨hlength, hu⟩
  · intro record hr
    simpa using hlinked.previous_hash 0 record hr
  · intro i first second hf hs
    rw [hlinked.previous_hash (i + 1) second hs, tailHashOf_take_succ _ hf]

-- Seal before accept. After any calls the host's chain state describes the store, and
-- every accept that was ever returned is the record stored at its position, then and
-- from then on: `calls` may go on as long as it likes after the accept.
theorem sealed_before_accept (P : Primitives) (config : HostConfig) (hrepo : config.repository = true)
    (calls : List Call) :
    CrashConsistent (run P (World.new config) calls) ∧
      ∀ before answers event expected expired after response,
        calls = before ++ .attempt answers event expected expired :: after →
        (perform P (run P (World.new config) before) (.attempt answers event expected expired)).2 =
          .attempt (.accept response) →
        ∃ record, (run P (World.new config) calls).stored[response.seq]? = some record ∧
          response = ⟨record.seq, record.record_hash, record.host_ts, record.previous_hash,
            record.host_signature, record.host_key_id, record.log_id⟩ := by
  have hstart := sound_new P config
  obtain ⟨_, _, hsound⟩ := run_sound hstart calls
  refine ⟨hsound.crashConsistent (run_repository hstart hrepo calls), ?_⟩
  intro before answers event expected expired after response hcalls haccept
  obtain ⟨_, _, hbefore⟩ := run_sound hstart before
  obtain ⟨record, hmem, hrecord⟩ := accept_mem_chain hbefore haccept
  -- The world right after the accepting call.
  have hthen : (perform P (run P (World.new config) before) (.attempt answers event expected expired)).1 =
      run P (World.new config) (before ++ [.attempt answers event expected expired]) := by
    simp [run]
  rw [hthen] at hmem
  obtain ⟨_, _, hsthen⟩ := run_sound hstart (before ++ [.attempt answers event expected expired])
  have hrepo' := run_repository hstart hrepo (before ++ [.attempt answers event expected expired])
  rw [acceptOf_together (hsthen.soundChain.countersigned record hmem)] at hrecord
  have hresponse := (AttemptResponse.accept.inj hrecord).symm
  have hseq := hsthen.soundChain.linked.getElem?_seq hmem
  rw [Sound.chain_of_repository hrepo'] at hseq
  refine ⟨record, ?_, hresponse⟩
  have hlater := run_stored_prefix hsthen after
  rw [← run_append, List.append_assoc, List.singleton_append, ← hcalls] at hlater
  obtain ⟨suffix, hsuffix⟩ := hlater
  obtain ⟨hlt, -⟩ := List.getElem?_eq_some_iff.mp hseq
  rw [hresponse, ← hsuffix, List.getElem?_append_left hlt]
  exact hseq

-- An attempt that lands unseen, and its repeat.
def landedRun : List Call :=
  let event := Reference.toolEvent Reference.SESSION_A Reference.EVENT_1 Outcome.ATTEMPTED []
  [.openSession Reference.SESSION_A, .attempt (Reference.answering .reads .storesAndThrows) event none false,
   .attempt (Reference.answering .reads .stores) event none false]

theorem landedRun_sealed : CrashConsistent (run Reference.primitives (World.new (Reference.tenant .L1)) landedRun) ∧
    ∀ before answers event expected expired after response,
      landedRun = before ++ .attempt answers event expected expired :: after →
      (perform Reference.primitives (run Reference.primitives (World.new (Reference.tenant .L1)) before)
        (.attempt answers event expected expired)).2 = .attempt (.accept response) →
      ∃ record, (run Reference.primitives (World.new (Reference.tenant .L1)) landedRun).stored[response.seq]? =
          some record ∧
        response = ⟨record.seq, record.record_hash, record.host_ts, record.previous_hash,
          record.host_signature, record.host_key_id, record.log_id⟩ :=
  sealed_before_accept Reference.primitives (Reference.tenant .L1) rfl landedRun

end AuditableMcp
