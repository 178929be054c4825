import AuditableMcp.Host.Coverage
import AuditableMcp.Host.Unavailable

-- Runs in which an append that fails stores nothing: no record ever lands unseen.
namespace AuditableMcp

-- The chain holds what the host's ledger counts.
def InStep (w : World) : Prop := w.chain.length = w.host.ledger.count

theorem Sound.pending_eq_nil {P : Primitives} {w : World} {committed pending : List SealedRecord}
    (h : Sound P w committed pending) (hstep : InStep w) : pending = [] := by
  unfold InStep at hstep
  rw [h.chain, h.count, List.length_append] at hstep
  exact List.eq_nil_of_length_eq_zero (by omega)

theorem Sound.inStep {P : Primitives} {w : World} {committed : List SealedRecord} (h : Sound P w committed []) :
    InStep w := by
  unfold InStep
  rw [h.chain, h.count, List.append_nil]

namespace InStep

variable {P : Primitives} {answers : Answers} {event : Json} {w : World} {host : AuditHost} {sessionId : JsString}

theorem of_fields (h : InStep w) (hconfig : host.config = w.host.config) (hledger : host.ledger = w.host.ledger) :
    InStep (w.withHost host) := by
  unfold InStep World.chain at h ⊢
  simp only [hconfig, hledger]
  exact h

theorem framed (h : InStep w) (hf : Framed w.host host) : InStep (w.withHost host) := h.of_fields hf.config hf.ledger

theorem noted (h : InStep w) (hnoted : Noted w.host host) : InStep (w.withHost host) := h.framed hnoted.framed

theorem sealEvent (h : InStep w) (happend : answers.append ≠ .storesAndThrows) :
    InStep (sealEvent P answers event w).1 := by
  unfold AuditableMcp.sealEvent
  cases prepare P answers event w.host with
  | error e => exact h
  | ok prepared =>
      cases prepared with
      | none => exact h
      | some record =>
          dsimp only
          cases hs : persist answers w record with
          | mk stored threw =>
              cases threw with
              | true =>
                  obtain ⟨hrepo, rfl⟩ := persist_threw_empty happend hs
                  exact h
              | false =>
                  have hkept : InStep ⟨{ w.host with ledger := w.host.ledger.commit record }, stored⟩ := by
                    obtain rfl := persist_done hs
                    unfold InStep World.chain at h ⊢
                    unfold World.keeping
                    cases hrepo : w.host.config.repository <;> simp_all [Ledger.commit]
                  cases hr : ({ w.host with ledger := w.host.ledger.commit record } : AuditHost).remember P record with
                  | error e => simpa only [hr] using hkept
                  | ok later =>
                      unfold AuditHost.remember at hr
                      obtain ⟨digest, -, hr⟩ := bind_ok hr
                      obtain rfl := pure_ok hr
                      obtain ⟨hconfig, hledger, -⟩ := committing_fields w.host record digest
                      exact hkept.of_fields hconfig hledger

theorem sealAttempt (h : InStep w) (happend : answers.append ≠ .storesAndThrows) :
    InStep (sealAttempt P answers event sessionId w).1 := by
  have hsealed : InStep (AuditableMcp.sealEvent P answers event w).1 := h.sealEvent happend
  unfold AuditableMcp.sealAttempt
  split
  · rename_i hs
    rwa [hs] at hsealed
  · rename_i hs
    rwa [hs] at hsealed
  · rename_i hs
    rw [hs] at hsealed
    exact (hsealed.noted (.decide _ event sessionId)).framed (framed_acceptId _ _ _)

theorem sealOutcome {digest : JsString} (h : InStep w) (happend : answers.append ≠ .storesAndThrows) :
    InStep (sealOutcome P answers event sessionId digest w).1 := by
  have hsealed : InStep (AuditableMcp.sealEvent P answers event w).1 := h.sealEvent happend
  unfold AuditableMcp.sealOutcome
  split
  · exact h
  · split
    · rename_i hs
      rwa [hs] at hsealed
    · rename_i hs
      rwa [hs] at hsealed
    · rename_i hs
      rw [hs] at hsealed
      exact (hsealed.noted (.decide _ event sessionId)).framed (framed_setTerminal _ _ _ _)

theorem decideAttempt (h : InStep w) (happend : answers.append ≠ .storesAndThrows) :
    InStep (decideAttempt P answers event sessionId w).1 := by
  have hreplay := Noted.checkReplay P w.host event sessionId
  unfold AuditableMcp.decideAttempt
  split
  · split
    · exact h
    · exact h.framed (framed_acceptId _ _ _)
    · exact h.noted (.refuseAttempt _ _ _ _)
  · split
    · exact h.noted (.refuseAttempt _ _ _ _)
    · split
      · rename_i hc
        rw [hc] at hreplay
        exact h.noted ((hreplay.trans (.rejectId _ _)).trans (.decide _ _ _))
      · split
        · exact h
        · exact h.sealAttempt happend

theorem decideOutcome (h : InStep w) (happend : answers.append ≠ .storesAndThrows) :
    InStep (decideOutcome P answers event sessionId w).1 := by
  have hreplay := Noted.checkReplay P w.host event sessionId
  unfold AuditableMcp.decideOutcome
  split
  · exact h
  · dsimp only
    split
    · exact h
    · split
      · exact h.noted ((Noted.decide _ _ _).trans (.flag _ _ _ _))
      · split
        · rename_i hc
          rw [hc] at hreplay
          exact h.noted hreplay
        · split
          · split
            · exact h.noted (.decide _ _ _)
            · exact h.noted ((Noted.decide _ _ _).trans (.flag _ _ _ _))
          · exact h.sealOutcome happend

theorem judgeAttempt {expected : Option JsString} (h : InStep w) (happend : answers.append ≠ .storesAndThrows) :
    InStep (judgeAttempt P answers event expected w).1 := by
  have hadmitted := Noted.admitEvent P w.host event expected true
  unfold AuditableMcp.judgeAttempt
  split
  · rename_i hs
    rw [hs] at hadmitted
    exact h.noted hadmitted
  · rename_i hs
    rw [hs] at hadmitted
    exact h.noted hadmitted
  · rename_i host sid hs
    rw [hs] at hadmitted
    have hverified := Noted.verifySignature P answers host event sid
    split
    · rename_i hv
      rw [hv] at hverified
      exact h.noted (hadmitted.trans hverified)
    · rename_i hv
      rw [hv] at hverified
      exact h.noted ((hadmitted.trans hverified).trans (.rejectId _ _))
    · rename_i hv
      rw [hv] at hverified
      exact (h.noted (hadmitted.trans hverified)).decideAttempt happend

theorem judgeOutcome {expected : Option JsString} (h : InStep w) (happend : answers.append ≠ .storesAndThrows) :
    InStep (judgeOutcome P answers event expected w).1 := by
  have hadmitted := Noted.admitEvent P w.host event expected false
  unfold AuditableMcp.judgeOutcome
  split
  · rename_i hs
    rw [hs] at hadmitted
    exact h.noted hadmitted
  · rename_i hs
    rw [hs] at hadmitted
    exact h.noted hadmitted
  · rename_i host sid hs
    rw [hs] at hadmitted
    have hverified := Noted.verifySignature P answers host event sid
    split
    · rename_i hv
      rw [hv] at hverified
      exact h.noted (hadmitted.trans hverified)
    · rename_i hv
      rw [hv] at hverified
      exact h.noted (hadmitted.trans hverified)
    · rename_i hv
      rw [hv] at hverified
      exact (h.noted (hadmitted.trans hverified)).decideOutcome happend

-- What was never stored unseen is never taken over.
theorem settles {committed pending : List SealedRecord} {adopted : Option SealedRecord} {settled : World}
    (h : InStep w) (hsound : Sound P w committed pending) (hs : Settles P w adopted settled) :
    adopted = none ∧ InStep settled := by
  cases hs with
  | kept => exact ⟨rfl, h⟩
  | confirmed hrepo hsame => exact ⟨rfl, h.of_fields rfl rfl⟩
  | adopted record digest sessionId hlanded =>
      have hpending := (hsound.pending_of_landed hlanded).1
      rw [hsound.pending_eq_nil h] at hpending
      cases hpending

theorem chainKnown {committed pending : List SealedRecord} (h : InStep w) (hsound : Sound P w committed pending) :
    InStep (chainKnown P answers w).1 := by
  cases hk : AuditableMcp.chainKnown P answers w with
  | mk settled result =>
      obtain ⟨adopted, hsettles, -⟩ := chainKnown_settles hsound.stored_admissible hk
      exact (h.settles hsound hsettles).2

theorem perform {committed pending : List SealedRecord} (h : InStep w) (hsound : Sound P w committed pending)
    (call : Call) (happend : call.StoresNothing) : InStep (perform P w call).1 := by
  cases call with
  | openSession sessionId =>
      dsimp only [AuditableMcp.perform]
      rw [replying_fst]
      exact h.of_fields (openSession_fields w.host sessionId).1 (openSession_fields w.host sessionId).2.1
  | closeSession sessionId =>
      exact h.of_fields (closeSession_fields w.host sessionId).1 (closeSession_fields w.host sessionId).2.1
  | setPersistenceAvailable available => exact h.of_fields rfl rfl
  | resume capability options openSessions =>
      dsimp only [AuditableMcp.perform, World.resume]
      split
      · rename_i host hresumed
        obtain ⟨config, hconfig, hhost⟩ := bind_ok hresumed
        exact (hsound.resumed (construct_fields hconfig).1 hhost).1.inStep
      · exact h
  | attempt answers event expected expired =>
      have hknown : InStep (AuditableMcp.chainKnown P answers w).1 := h.chainKnown hsound
      dsimp only [AuditableMcp.perform]
      rw [replying_fst]
      unfold handleAttempt
      split
      · exact h
      · split
        · rename_i hk
          rwa [hk] at hknown
        · rename_i hk
          rwa [hk] at hknown
        · rename_i hk
          rw [hk] at hknown
          exact hknown.judgeAttempt happend
  | outcome answers event expected =>
      have hknown : InStep (AuditableMcp.chainKnown P answers w).1 := h.chainKnown hsound
      dsimp only [AuditableMcp.perform]
      rw [replying_fst]
      unfold recordOutcome
      split
      · exact h.noted (.flag _ _ _ _)
      · split
        · rename_i hk
          rwa [hk] at hknown
        · rename_i hk
          rwa [hk] at hknown
        · rename_i hk
          rw [hk] at hknown
          exact hknown.judgeOutcome happend

end InStep

theorem run_inStep {P : Primitives} (config : HostConfig) (calls : List Call)
    (happends : ∀ call ∈ calls, call.StoresNothing) : InStep (run P (World.new config) calls) := by
  have hnew : InStep (World.new config) := (sound_new P config).inStep
  refine (run_induction (P := P) (I := InStep) (fun _ call => call.StoresNothing)
    (fun w committed pending call w' hsound happend _ hw hI => ?_) (sound_new P config) hnew calls
    fun before call after hsplit => happends call (by rw [hsplit]; simp)).1
  rw [hw]
  exact hI.perform hsound call happend

-- In such a run no call ever takes a record over.
theorem run_adopts_none {P : Primitives} (config : HostConfig) {calls : List Call}
    (happends : ∀ call ∈ calls, call.StoresNothing) (call : Call) :
    call.adopts (run P (World.new config) calls) = none := by
  obtain ⟨committed, pending, hsound⟩ := run_sound (sound_new P config) calls
  have hpending := hsound.pending_eq_nil (run_inStep config calls happends)
  have hnone : (run P (World.new config) calls).landed = none := by
    cases hlanded : (run P (World.new config) calls).landed with
    | none => rfl
    | some record =>
        have hpend := (hsound.pending_of_landed (landed_eq_some.mp hlanded)).1
        rw [hpending] at hpend
        cases hpend
  cases call with
  | attempt answers event expected expired =>
      dsimp only [Call.adopts]
      split
      · exact hnone
      · rfl
  | outcome answers event expected =>
      dsimp only [Call.adopts]
      split
      · exact hnone
      · rfl
  | _ => rfl

end AuditableMcp
