import AuditableMcp.Host.Mirror
import AuditableMcp.Host.Runs
import AuditableMcp.Reference.Events

-- A call answered `unavailable`, or reported as not recorded, decides nothing.
namespace AuditableMcp

-- What a list of calls is answered, one after the other.
def replies (P : Primitives) : World → List Call → List Reply
  | _, [] => []
  | w, call :: rest => (perform P w call).2 :: replies P (perform P w call).1 rest

theorem run_cons (P : Primitives) (w : World) (call : Call) (rest : List Call) :
    run P w (call :: rest) = run P (perform P w call).1 rest := rfl

-- The tail is the one the host has, though it may doubt it.
structure Quiet (w : World) : Prop where
  repository : w.host.config.repository = true
  unchanged : tailUnchanged w.stored.getLast? w.host.ledger = true

theorem Quiet.of_fields {w w' : World} (h : Quiet w) (hconfig : w'.host.config = w.host.config)
    (hledger : w'.host.ledger = w.host.ledger) (hstored : w'.stored = w.stored) : Quiet w' :=
  ⟨by rw [hconfig, h.repository], by rw [hledger, hstored, h.unchanged]⟩

-- A host without doubt has the tail its repository has.
theorem Sound.quiet {P : Primitives} {w : World} {committed pending : List SealedRecord}
    (h : Sound P w committed pending) (hcertain : w.host.tailUncertain = false)
    (hrepo : w.host.config.repository = true) : Quiet w := by
  refine ⟨hrepo, ?_⟩
  have hstored : w.stored = committed := by
    rw [← Sound.chain_of_repository hrepo]
    exact (h.settled fun _ => hcertain).2
  have hlinked := h.soundChain.linked
  rw [Sound.chain_of_repository hrepo, hstored] at hlinked
  rw [hstored]
  cases committed using List.reverseRecOn with
  | nil => simp [tailUnchanged, h.count]
  | append_singleton init record =>
      have hlast : (init ++ [record]).getLast? = some record := by simp
      have hlength := isChain_length P hlinked hlast
      simp only [List.length_append, List.length_singleton] at hlength
      have hhash : record.record_hash = w.host.ledger.tailHash := by
        rw [h.tailHash, tailHashOf_append_singleton]
      simp [tailUnchanged, Ledger.digest, h.count, hhash, hlength]

-- Everything but the highest numbers received and the gaps that are flagged by them.
def exceptGaps : Likeness where
  Seen := IntegrityAnomaly
  see := Option.guard fun anomaly => anomaly.kind ≠ .signerSeqGap
  bounds := False
  memory := True
  gaps := Or.inr fun id detail => by simp [Option.guard]
  details := Or.inl trivial

-- Two worlds that differ in what one of them received, and in its doubt of a tail it has.
def Following (w v : World) : Prop :=
  Abreast exceptGaps (.empty exceptGaps) True w v ∨
    Abreast exceptGaps (.empty exceptGaps) False w v ∧ Quiet w ∧ v.host.tailUncertain = false

-- The repository answers where the call reads its tail.
def Call.Readable : Call → Prop
  | .attempt answers _ _ _ => answers.loadTail = .reads
  | .outcome answers _ _ => answers.loadTail = .reads
  | _ => True

section

variable {P : Primitives} {w v : World}

theorem settleTail_quiet (h : Quiet w) : settleTail P .reads w =
    (w.withHost { w.host with tailUncertain := false }, .ok true) := by
  simp only [settleTail, h.unchanged, ↓reduceIte]

-- Reading the tail ends the doubt.
theorem chainKnown_following (h : Following w v) {answers : Answers} (hreads : answers.loadTail = .reads) :
    Together (Abreast exceptGaps (.empty exceptGaps) True) (chainKnown P answers w) (chainKnown P answers v) := by
  rcases h with habreast | ⟨habreast, hquiet, hcertain⟩
  · exact chainKnown_abreast habreast answers
  · have hv : chainKnown P answers v = (v, .ok true) := by simp [chainKnown, hcertain]
    rw [hv]
    unfold chainKnown
    by_cases hdoubt : w.host.tailUncertain = true
    · have hsettles : (!w.host.tailUncertain || !w.host.config.repository) = false := by simp [hdoubt, hquiet.repository]
      rw [hsettles, hreads]
      simp only [Bool.false_eq_true, ↓reduceIte, settleTail_quiet hquiet]
      exact ⟨⟨{ habreast.hosts with tailUncertain := fun _ => hcertain.symm }, habreast.stored⟩, rfl⟩
    · have hw : w.host.tailUncertain = false := by simpa using hdoubt
      simp only [hw, Bool.not_false, Bool.true_or, ↓reduceIte]
      exact ⟨⟨{ habreast.hosts with tailUncertain := fun _ => hw.trans hcertain.symm }, habreast.stored⟩, rfl⟩

theorem following_of_abreast {first second : World × Reply}
    (h : Together (Abreast exceptGaps (.empty exceptGaps) True) first second) : Together Following first second :=
  ⟨Or.inl h.states, h.results⟩

-- Calls that leave the ledger, the repository and the doubt alone.
theorem following_of_idle {first second : World × Reply}
    (h : Together (Abreast exceptGaps (.empty exceptGaps) False) first second)
    (hquiet : Quiet first.1) (hcertain : second.1.host.tailUncertain = false) : Together Following first second :=
  ⟨Or.inr ⟨h.states, hquiet, hcertain⟩, h.results⟩

theorem openSession_fields (host : AuditHost) (sessionId : JsString) :
    (host.openSession sessionId).1.config = host.config ∧ (host.openSession sessionId).1.ledger = host.ledger ∧
      (host.openSession sessionId).1.tailUncertain = host.tailUncertain := by
  unfold AuditHost.openSession
  split <;> exact ⟨rfl, rfl, rfl⟩

theorem closeSession_fields (host : AuditHost) (sessionId : JsString) :
    (host.closeSession sessionId).config = host.config ∧ (host.closeSession sessionId).ledger = host.ledger ∧
      (host.closeSession sessionId).tailUncertain = host.tailUncertain := by
  cases hopen : host.sessions.get sessionId with
  | none =>
      simp only [AuditHost.closeSession, hopen]
      exact ⟨trivial, trivial, trivial⟩
  | some session =>
      have hnoted := closeSession_noted host sessionId session hopen
      exact ⟨hnoted.config, hnoted.ledger, hnoted.tailUncertain⟩

theorem replying_fst {α : Type} (reply : α → Reply) (out : World × Except JsError α) :
    (World.replying reply out).1 = out.1 := by
  obtain ⟨after, result⟩ := out
  cases result <;> rfl

theorem perform_following (h : Following w v) (call : Call) (hreadable : call.Readable) :
    Together Following (perform P w call) (perform P v call) := by
  rcases h with habreast | ⟨habreast, hquiet, hcertain⟩
  · exact following_of_abreast (perform_abreast habreast trivial call)
  · have hfollows : Following w v := Or.inr ⟨habreast, hquiet, hcertain⟩
    cases call with
    | openSession sessionId =>
        obtain ⟨hconfig, hledger, -⟩ := openSession_fields w.host sessionId
        obtain ⟨-, -, hdoubt⟩ := openSession_fields v.host sessionId
        apply following_of_idle (perform_openSession_abreast habreast trivial sessionId)
        · dsimp only [perform]
          rw [replying_fst]
          exact hquiet.of_fields hconfig hledger rfl
        · dsimp only [perform]
          rw [replying_fst]
          exact hdoubt.trans hcertain
    | closeSession sessionId =>
        obtain ⟨hconfig, hledger, -⟩ := closeSession_fields w.host sessionId
        obtain ⟨-, -, hdoubt⟩ := closeSession_fields v.host sessionId
        exact following_of_idle (perform_closeSession_abreast habreast sessionId)
          (hquiet.of_fields hconfig hledger rfl) (hdoubt.trans hcertain)
    | setPersistenceAvailable available =>
        exact following_of_idle (perform_setPersistenceAvailable_abreast habreast available)
          (hquiet.of_fields rfl rfl rfl) hcertain
    | attempt answers event expected expired =>
        cases expired with
        | true => exact ⟨hfollows, rfl⟩
        | false =>
            have hsettled := handleAttempt_settled event expected (chainKnown_following (P := P) hfollows hreadable)
            exact following_of_abreast (replying_together hsettled Reply.attempt)
    | outcome answers event expected =>
        cases hobject : event.isObject with
        | true =>
            have hsettled :=
              recordOutcome_settled expected hobject (chainKnown_following (P := P) hfollows hreadable)
            exact following_of_abreast (replying_together hsettled Reply.outcome)
        | false =>
            have hunread (u : World) : (recordOutcome P answers event expected u).1 = u.withHost
                (u.host.flag "<unknown>" .schemaInvalid (.text "an event must be a JSON object (§4)")) := by
              simp [recordOutcome, hobject]
            have hidle := replying_together (recordOutcome_unread (P := P) habreast answers expected hobject) Reply.outcome
            apply following_of_idle hidle
            · rw [replying_fst, hunread]
              exact hquiet.of_fields rfl rfl rfl
            · rw [replying_fst, hunread]
              exact hcertain
    | resume capability options openSessions =>
        rcases perform_resume_cases (P := P) habreast capability options openSessions with
          ⟨host, hproper, hf, hs⟩ | ⟨e, hf, hs⟩
        · rw [hf, hs]
          exact ⟨Or.inl ⟨.refl exceptGaps True hproper, habreast.stored⟩, rfl⟩
        · rw [hf, hs]
          exact ⟨hfollows, rfl⟩

-- Two worlds that follow each other give the same replies and keep the same records.
theorem run_following (h : Following w v) (more : List Call) (hreadable : ∀ call ∈ more, call.Readable) :
    Following (run P w more) (run P v more) ∧ replies P w more = replies P v more := by
  induction more generalizing w v with
  | nil => exact ⟨h, rfl⟩
  | cons call rest ih =>
      obtain ⟨hstates, hresults⟩ := perform_following (P := P) h call (hreadable call (by simp))
      obtain ⟨hafter, hreplies⟩ := ih hstates fun other ho => hreadable other (by simp [ho])
      refine ⟨hafter, ?_⟩
      simp only [replies, hresults, hreplies]

theorem Following.alike (h : Following w v) : ∃ settled, Abreast exceptGaps (.empty exceptGaps) settled w v := by
  rcases h with habreast | ⟨habreast, -, -⟩
  · exact ⟨True, habreast⟩
  · exact ⟨False, habreast⟩

theorem Following.chain (h : Following w v) : w.chain = v.chain := by
  obtain ⟨settled, habreast⟩ := h.alike
  obtain ⟨since, hf, hs⟩ := habreast.hosts.records
  unfold World.chain
  rw [habreast.hosts.config, habreast.stored, hf, hs]
  rfl

theorem Following.anomalies (h : Following w v) :
    (w.host.anomalies.filter fun anomaly => anomaly.kind ≠ .signerSeqGap) =
      v.host.anomalies.filter fun anomaly => anomaly.kind ≠ .signerSeqGap := by
  obtain ⟨settled, habreast⟩ := h.alike
  obtain ⟨since, hf, hs⟩ := habreast.hosts.anomalies
  have hsame := hf.trans hs.symm
  simpa only [exceptGaps, List.filterMap_eq_filter] using hsame

end

-- An append that fails stores nothing.
def Call.StoresNothing : Call → Prop
  | .attempt answers _ _ _ => answers.append ≠ .storesAndThrows
  | .outcome answers _ _ => answers.append ≠ .storesAndThrows
  | _ => True

-- The two replies that promise nothing was decided.
def Reply.undecided : Reply → Bool
  | .attempt .unavailable => true
  | .outcome .notRecorded => true
  | _ => false

section

variable {P : Primitives} {answers : Answers} {event : Json} {w u after : World}

theorem persist_threw_empty {record : SealedRecord} {stored : List SealedRecord}
    (happend : answers.append ≠ .storesAndThrows) (h : persist answers w record = (stored, true)) :
    w.host.config.repository = true ∧ stored = w.stored := by
  refine ⟨(persist_threw h).1, ?_⟩
  unfold persist appendRecord at h
  rw [if_pos (persist_threw h).1] at h
  split at h
  · exact (Prod.mk.inj h).1.symm
  · cases ha : answers.append with
    | stores => simp [ha] at h
    | storesAndThrows => exact absurd ha happend
    | throws =>
        rw [ha] at h
        exact (Prod.mk.inj h).1.symm

-- A seal that gave no record changed nothing, or left the host in doubt.
theorem sealEvent_none (happend : answers.append ≠ .storesAndThrows)
    (h : sealEvent P answers event w = (after, .ok none)) :
    after = w ∨ w.host.config.repository = true ∧ after = w.withHost { w.host with tailUncertain := true } := by
  unfold sealEvent at h
  cases hp : prepare P answers event w.host with
  | error e => simp [hp] at h
  | ok prepared =>
      cases prepared with
      | none =>
          rw [hp] at h
          exact Or.inl (Prod.mk.inj h).1.symm
      | some record =>
          simp only [hp] at h
          cases hs : persist answers w record with
          | mk stored threw =>
              cases threw with
              | true =>
                  obtain ⟨hrepo, rfl⟩ := persist_threw_empty happend hs
                  simp only [hs] at h
                  exact Or.inr ⟨hrepo, (Prod.mk.inj h).1.symm⟩
              | false =>
                  simp only [hs] at h
                  split at h <;> simp at h

-- The seal of a world that only received more than another.
theorem following_of_seal (h : Abreast exceptGaps (.empty exceptGaps) True u w)
    (hcertain : w.host.tailUncertain = false) (hquiet : w.host.config.repository = true → Quiet w)
    (happend : answers.append ≠ .storesAndThrows) (hs : sealEvent P answers event u = (after, .ok none)) :
    Following after w := by
  rcases sealEvent_none happend hs with rfl | ⟨hrepo, rfl⟩
  · exact Or.inl h
  · have hdoubt : Alike exceptGaps (.empty exceptGaps) False { u.host with tailUncertain := true } w.host :=
      { h.hosts with tailUncertain := False.elim }
    have hquiet := hquiet (h.hosts.config ▸ hrepo)
    refine Or.inr ⟨⟨hdoubt, h.stored⟩, ⟨hrepo, ?_⟩, hcertain⟩
    rw [← hquiet.unchanged, ← h.stored]
    exact tailUnchanged_alike h.hosts _

theorem decideAttempt_unavailable {sessionId : JsString}
    (h : decideAttempt P answers event sessionId u = (after, .ok .unavailable)) :
    after = u ∨ sealEvent P answers event u = (after, .ok none) := by
  unfold decideAttempt at h
  cases hget : u.host.sealedAttempts.get (eventId event) with
  | some record =>
      obtain ⟨response, hresponse⟩ := acceptOf_eq record
      simp only [hget, hresponse] at h
      split at h <;> simp at h
  | none =>
      simp only [hget] at h
      split at h
      · simp at h
      · split at h
        · simp at h
        · split at h
          · exact Or.inl (Prod.mk.inj h).1.symm
          · unfold sealAttempt at h
            split at h
            · simp at h
            · rename_i later hseal
              rw [hseal, (Prod.mk.inj h).1]
              exact Or.inr rfl
            · rename_i record _
              obtain ⟨response, hresponse⟩ := acceptOf_eq record
              simp [hresponse] at h

theorem decideOutcome_notRecorded {sessionId : JsString}
    (h : decideOutcome P answers event sessionId u = (after, .ok .notRecorded)) :
    after = u ∨ sealEvent P answers event u = (after, .ok none) := by
  unfold decideOutcome at h
  cases hdigest : digestOf P event with
  | error e => simp [hdigest] at h
  | ok digest =>
      simp only [hdigest] at h
      split at h
      · simp at h
      · split at h
        · simp at h
        · split at h
          · simp at h
          · split at h
            · split at h <;> simp at h
            · unfold sealOutcome at h
              split at h
              · exact Or.inl (Prod.mk.inj h).1.symm
              · split at h
                · simp at h
                · rename_i later hseal
                  rw [hseal, (Prod.mk.inj h).1]
                  exact Or.inr rfl
                · simp at h

-- Where the bounds are not compared, a verified signature is not seen.
theorem verifySignature_received {L : Likeness} {base : Base L} {settled : Prop} {first second later : AuditHost}
    {sessionId : JsString} (h : Alike L base settled first second) (hbounds : ¬L.bounds)
    (hv : first.verifySignature P answers event sessionId = (later, .ok none)) : Alike L base settled later second := by
  unfold AuditHost.verifySignature at hv
  split at hv
  · rwa [← (Prod.mk.inj hv).1]
  · split at hv
    · simp at hv
    · split at hv
      · simp at hv
      · simp at hv
      · rw [← (Prod.mk.inj hv).1]
        exact h.received hbounds event sessionId _ _

theorem judgeAttempt_undecided {expected : Option JsString} (hproper : w.host.Proper)
    (hcertain : w.host.tailUncertain = false) (hquiet : w.host.config.repository = true → Quiet w)
    (happend : answers.append ≠ .storesAndThrows)
    (h : judgeAttempt P answers event expected w = (after, .ok .unavailable)) : Following after w := by
  unfold judgeAttempt at h
  split at h
  · simp at h
  · simp at h
  · rename_i host sessionId hadmit
    obtain ⟨rfl, -⟩ := AuditHost.admitEvent_session hadmit
    split at h
    · simp at h
    · simp at h
    · rename_i later hverify
      have hreceived : Abreast exceptGaps (.empty exceptGaps) True (w.withHost later) w :=
        ⟨verifySignature_received (.refl exceptGaps True hproper) not_false hverify, rfl⟩
      rcases decideAttempt_unavailable h with rfl | hseal
      · exact Or.inl hreceived
      · exact following_of_seal hreceived hcertain hquiet happend hseal

theorem judgeOutcome_undecided {expected : Option JsString} (hproper : w.host.Proper)
    (hcertain : w.host.tailUncertain = false) (hquiet : w.host.config.repository = true → Quiet w)
    (happend : answers.append ≠ .storesAndThrows)
    (h : judgeOutcome P answers event expected w = (after, .ok .notRecorded)) : Following after w := by
  unfold judgeOutcome at h
  split at h
  · simp at h
  · simp at h
  · rename_i host sessionId hadmit
    obtain ⟨rfl, -⟩ := AuditHost.admitEvent_session hadmit
    split at h
    · simp at h
    · simp at h
    · rename_i later hverify
      have hreceived : Abreast exceptGaps (.empty exceptGaps) True (w.withHost later) w :=
        ⟨verifySignature_received (.refl exceptGaps True hproper) not_false hverify, rfl⟩
      rcases decideOutcome_notRecorded h with rfl | hseal
      · exact Or.inl hreceived
      · exact following_of_seal hreceived hcertain hquiet happend hseal

theorem perform_undecided (hproper : w.host.Proper) (hcertain : w.host.tailUncertain = false)
    (hquiet : w.host.config.repository = true → Quiet w) (call : Call) (happend : call.StoresNothing)
    (hundecided : (perform P w call).2.undecided = true) : Following (perform P w call).1 w := by
  have hknown (answers : Answers) : chainKnown P answers w = (w, .ok true) := by simp [chainKnown, hcertain]
  cases call with
  | openSession sessionId =>
      dsimp only [perform] at hundecided
      cases hopen : (w.host.openSession sessionId).2 <;> simp [hopen, World.replying, Reply.undecided] at hundecided
  | closeSession sessionId => simp [perform, Reply.undecided] at hundecided
  | setPersistenceAvailable available => simp [perform, Reply.undecided] at hundecided
  | resume capability options openSessions =>
      dsimp only [perform, World.resume] at hundecided
      split at hundecided <;> simp [Reply.undecided] at hundecided
  | attempt answers event expected expired =>
      dsimp only [perform] at hundecided ⊢
      rw [replying_fst]
      cases expired with
      | true => exact Or.inl ⟨.refl exceptGaps True hproper, rfl⟩
      | false =>
          have hjudge : handleAttempt P answers event expected false w = judgeAttempt P answers event expected w := by
            simp [handleAttempt, hknown]
          rw [hjudge] at hundecided ⊢
          cases hj : judgeAttempt P answers event expected w with
          | mk after result =>
              rw [hj] at hundecided
              rcases result with e | (response | reason | _)
              · simp [World.replying, Reply.undecided] at hundecided
              · simp [World.replying, Reply.undecided] at hundecided
              · simp [World.replying, Reply.undecided] at hundecided
              · exact judgeAttempt_undecided hproper hcertain hquiet happend hj
  | outcome answers event expected =>
      dsimp only [perform] at hundecided ⊢
      rw [replying_fst]
      cases hobject : event.isObject with
      | false => simp [recordOutcome, hobject, World.replying, Reply.undecided] at hundecided
      | true =>
          have hjudge : recordOutcome P answers event expected w = judgeOutcome P answers event expected w := by
            simp [recordOutcome, hknown, hobject]
          rw [hjudge] at hundecided ⊢
          cases hj : judgeOutcome P answers event expected w with
          | mk after result =>
              rw [hj] at hundecided
              rcases result with e | (_ | _ | _ | _)
              · simp [World.replying, Reply.undecided] at hundecided
              · simp [World.replying, Reply.undecided] at hundecided
              · simp [World.replying, Reply.undecided] at hundecided
              · simp [World.replying, Reply.undecided] at hundecided
              · exact judgeOutcome_undecided hproper hcertain hquiet happend hj

end

theorem run_proper (P : Primitives) (config : HostConfig) (calls : List Call) :
    (run P (World.new config) calls).host.Proper := by
  have hnew : (World.new config).host.Proper :=
    ⟨List.nodup_nil, fun sessionId session h => by simp [World.new, AuditHost.new] at h⟩
  have hself : Abreast exceptGaps (.empty exceptGaps) True (World.new config) (World.new config) :=
    ⟨.refl exceptGaps True hnew, rfl⟩
  suffices h : ∀ w, Abreast exceptGaps (.empty exceptGaps) True w w →
      Abreast exceptGaps (.empty exceptGaps) True (run P w calls) (run P w calls) from (h _ hself).hosts.proper
  induction calls with
  | nil => exact fun w h => h
  | cons call rest ih => exact fun w h => ih _ (perform_abreast h trivial call).states

-- What two worlds make of the same calls: what they answer, seal and record, gaps aside.
structure SameDecisions (P : Primitives) (w v : World) (more : List Call) : Prop where
  replies : replies P w more = replies P v more
  chain : (run P w more).chain = (run P v more).chain
  anomalies : ((run P w more).host.anomalies.filter fun anomaly => anomaly.kind ≠ .signerSeqGap) =
    (run P v more).host.anomalies.filter fun anomaly => anomaly.kind ≠ .signerSeqGap

-- A call that was answered `unavailable`, or whose outcome was not recorded, might as
-- well not have been made: whatever follows goes as it would have gone without it.
theorem undecided_decides_nothing (P : Primitives) (config : HostConfig) (calls : List Call) (call : Call)
    (hcertain : (run P (World.new config) calls).host.tailUncertain = false) (happend : call.StoresNothing)
    (hundecided : (perform P (run P (World.new config) calls) call).2.undecided = true) (more : List Call)
    (hreadable : ∀ later ∈ more, later.Readable) :
    SameDecisions P (perform P (run P (World.new config) calls) call).1 (run P (World.new config) calls) more := by
  obtain ⟨committed, pending, hsound⟩ := run_sound (sound_new P config) calls
  have hfollows := perform_undecided (P := P) (run_proper P config calls) hcertain
    (fun hrepo => hsound.quiet hcertain hrepo) call happend hundecided
  obtain ⟨hafter, hreplies⟩ := run_following (P := P) hfollows more hreadable
  exact ⟨hreplies, hafter.chain, hafter.anomalies⟩

-- A signed attempt far past the expected number, lost to its append, and the same one stored.
def skippingAttempt (append : Append) : Call :=
  .attempt (Reference.answering .reads append)
    (Reference.toolEvent Reference.SESSION_A Reference.EVENT_1 Outcome.ATTEMPTED
      (Reference.signedUnder "tool-1" 5 "c2lnbmVk")) none false

theorem skippingAttempt_decides_nothing :
    SameDecisions Reference.primitives
      (perform Reference.primitives (run Reference.primitives (World.new (Reference.tenant .L2))
        [.openSession Reference.SESSION_A]) (skippingAttempt .throws)).1
      (run Reference.primitives (World.new (Reference.tenant .L2)) [.openSession Reference.SESSION_A])
      [skippingAttempt .stores, .closeSession Reference.SESSION_A] :=
  undecided_decides_nothing Reference.primitives (Reference.tenant .L2) [.openSession Reference.SESSION_A]
    (skippingAttempt .throws) rfl (by simp [skippingAttempt, Call.StoresNothing, Reference.answering])
    (by decide +kernel) _ (by simp [skippingAttempt, Call.Readable, Reference.answering])

end AuditableMcp
