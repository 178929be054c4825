import AuditableMcp.Host.Receipts
import AuditableMcp.Verify.Agreement
import AuditableMcp.Verify.Gaps

-- The gaps the verifier reports over a host's chain, and what the host saw of them.
namespace AuditableMcp

-- The host turned the number's event away, or never received it and flagged a larger one.
def Visible (received : List Reception) (keyId sessionId : JsString) (v : Nat) : Prop :=
  (∃ r ∈ received, r.has keyId sessionId v ∧ r.turnedAway) ∨
    (∀ r ∈ received, ¬r.has keyId sessionId v) ∧
      ∃ r ∈ received, ∃ n, v < n ∧ r.has keyId sessionId n ∧ r.flags .signerSeqGap

-- The host recorded no anomaly for an event of the session, and left none undecided.
def Untroubled (received : List Reception) (sessionId : JsString) : Prop :=
  ∀ r ∈ received, r.sessionId = sessionId → r.recorded = [] ∧ r.reply.undecided = false

theorem Untroubled.not_visible {received : List Reception} {keyId sessionId : JsString} {v : Nat}
    (h : Untroubled received sessionId) : ¬Visible received keyId sessionId v := by
  have hquiet : ∀ r ∈ received, r.sessionId = sessionId → ∀ kind, ¬r.flags kind := by
    rintro r hr hsession kind ⟨detail, hmem⟩
    rw [(h r hr hsession).1] at hmem
    cases hmem
  rintro (⟨r, hr, hhas, ⟨-, kind, hflags⟩ | hundecided⟩ | ⟨-, r, hr, n, -, hhas, hflags⟩)
  · exact hquiet r hr hhas.1 kind hflags
  · rw [(h r hr hhas.1).2] at hundecided
    cases hundecided
  · exact hquiet r hr hhas.1 _ hflags

section

variable {P : Primitives} {event : Json} {keyId sessionId : JsString} {n : Nat}

-- The number the accounting reads off a current event is the one it was signed under.
theorem numberIn_current (h : CurrentEvent event) : numberIn keyId sessionId event = some n ↔
    event.get Fields.SESSION_ID = some (.str sessionId) ∧ numberOf event = some (keyId, .ofNat n) := by
  obtain ⟨session, hsession⟩ := h.session
  unfold numberIn accountedNumber numberOf
  rw [hsession]
  rcases h.signerSeq with hnone | ⟨m, hm, hle⟩
  · simp [hnone]
  · have hsafe : safeNatural (.ofNat m) = some m := by
      simp [safeNatural, JsNum.ofNat, hle]
    rcases h.keyId with hnone | ⟨key, hkey⟩
    · simp [hnone]
    · simp only [hkey, hm, hsafe, Option.map_some, Option.bind_some, Option.some.injEq, Json.str.injEq, Prod.mk.injEq]
      constructor
      · intro hnumber
        split at hnumber
        · rename_i hown
          exact ⟨hown.2, hown.1, congrArg JsNum.ofNat (Option.some.inj hnumber)⟩
        · cases hnumber
      · rintro ⟨rfl, rfl, hnumber⟩
        have hsame : m = n := by simpa [JsNum.ofNat] using hnumber
        simp [hsame]

theorem listedEvents_current {records : List SealedRecord} (h : ∀ record ∈ records, CurrentEvent record.event) :
    event ∈ listedEvents (records.map fun record => some record.event) ↔ ∃ record ∈ records, record.event = event := by
  rw [mem_listedEvents]
  constructor
  · rintro ⟨hmem, -, -⟩
    obtain ⟨record, hr, he⟩ := List.mem_map.mp hmem
    exact ⟨record, hr, Option.some.inj he⟩
  · rintro ⟨record, hr, rfl⟩
    obtain ⟨members, hobject⟩ := (h record hr).isObject
    refine ⟨List.mem_map.mpr ⟨record, hr, rfl⟩, ?_, (h record hr).scoped⟩
    rw [hobject]
    rfl

theorem unaccountedSignerSeq_current (P : Primitives) {records : List SealedRecord}
    (h : ∀ record ∈ records, CurrentEvent record.event) :
    ∃ gaps, unaccountedSignerSeq P (records.map fun record => some record.event) = .ok gaps := by
  apply unaccountedSignerSeq_isOk.mpr
  intro event hmem _
  obtain ⟨record, hr, he⟩ := List.mem_map.mp hmem
  obtain rfl := Option.some.inj he
  exact (h record hr).readable.accounting

-- What is missing from a chain is missing from the events the host did seal.
theorem visible_of_gapped {received : List Reception} {w : World} (hwitnessed : Witnessed received w)
    (hcurrent : ∀ record ∈ w.chain, CurrentEvent record.event) {gap : UnaccountedSignerSeq}
    (hgap : Gapped (w.chain.map fun record => some record.event) gap) {v : Nat} (hlow : gap.first ≤ v)
    (hhigh : v ≤ gap.last) : Visible received gap.key_id gap.session_id v := by
  obtain ⟨hmissing, larger, hlarger, hlt⟩ := hgap.missing v hlow hhigh
  obtain ⟨event, hlisted, hnumber⟩ := List.mem_filterMap.mp hlarger
  obtain ⟨record, hr, rfl⟩ := (listedEvents_current hcurrent).mp hlisted
  obtain ⟨hsession, hlargerNumber⟩ := (numberIn_current (hcurrent record hr)).mp hnumber
  obtain ⟨r, hmem, hevent⟩ := hwitnessed.chain record hr
  have hnamed := hwitnessed.named r hmem
  rw [hevent, hsession] at hnamed
  have hhas : r.has gap.key_id gap.session_id larger := by
    refine ⟨by simpa using hnamed.symm, ?_⟩
    rw [hevent]
    exact hlargerNumber
  -- An event received under the missing number was not sealed.
  have haway : ∀ other ∈ received, other.has gap.key_id gap.session_id v → other.turnedAway := by
    intro other ho hother
    apply (hwitnessed.answered other ho).resolve_right
    rintro ⟨kept, hkept, hsame, hnumbered⟩
    apply hmissing
    refine List.mem_filterMap.mpr ⟨kept.event, (listedEvents_current hcurrent).mpr ⟨kept, hkept, rfl⟩, ?_⟩
    rw [numberIn_current (hcurrent kept hkept), hsame, hnumbered, hwitnessed.named other ho, hother.1]
    exact ⟨rfl, hother.2⟩
  by_cases hheard : ∃ other ∈ received, other.has gap.key_id gap.session_id v
  · obtain ⟨other, ho, hother⟩ := hheard
    exact Or.inl ⟨other, ho, hother, haway other ho hother⟩
  · refine Or.inr ⟨fun other ho hother => hheard ⟨other, ho, hother⟩, ?_⟩
    exact (hwitnessed.below r hmem gap.key_id gap.session_id larger hhas v hlt).resolve_left hheard

end

theorem digestsTell_of_nodup {P : Primitives} {events : List Json} (h : (events.map (digestOf P)).Nodup) :
    DigestsTell P events := by
  intro first hf second hs digest hfirst hsecond
  rw [List.inj_on_of_nodup_map h hf hs (hfirst.trans hsecond.symm)]

-- After any run of a Level-2 host without a restart, each number the verifier reports
-- missing was visible to the host, and a session without a sign of trouble has no gap.
theorem gaps_visible (P : Primitives) (hjcs : JcsFaithful P) (config : HostConfig) (hlevel : config.capability.level = .L2)
    (calls : List Call) (hrestarts : ∀ call ∈ calls, call.restarts = false) (hclock : ∀ call ∈ calls, call.Clocked)
    (hlength : ((run P (World.new config) calls).chain.length : ℚ) ≤ MAX_SAFE_INTEGER)
    (htell : DigestsTell P ((receptions P (World.new config) calls).map Reception.event)) :
    ∃ gaps, unaccountedSignerSeq P ((run P (World.new config) calls).chain.map fun record => some record.event) =
        .ok gaps ∧
      (∀ gap ∈ gaps, gap.first ≤ gap.last ∧ ∀ v, gap.first ≤ v → v ≤ gap.last →
        Visible (receptions P (World.new config) calls) gap.key_id gap.session_id v) ∧
      ∀ sessionId, Untroubled (receptions P (World.new config) calls) sessionId →
        ∀ gap ∈ gaps, gap.session_id ≠ sessionId := by
  obtain ⟨_, _, hsound⟩ := run_sound (sound_new P config) calls
  have hcurrent : ∀ record ∈ (run P (World.new config) calls).chain, CurrentEvent record.event :=
    fun record hr => (hsound.soundChain.admissible record hr).current
  obtain ⟨gaps, hgaps⟩ := unaccountedSignerSeq_current P hcurrent
  have hvisible : ∀ gap ∈ gaps, gap.first ≤ gap.last ∧ ∀ v, gap.first ≤ v → v ≤ gap.last →
      Visible (receptions P (World.new config) calls) gap.key_id gap.session_id v := by
    intro gap hgap
    have hgapped := unaccountedSignerSeq_gapped hgaps gap hgap
    by_cases hsignable : Signable config
    · have hwitnessed := run_witnessed hjcs hlevel hsignable calls hrestarts hclock hlength htell
      exact ⟨hgapped.filled, fun v hlow hhigh => visible_of_gapped hwitnessed hcurrent hgapped hlow hhigh⟩
    · -- Nothing is sealed, so nothing larger is.
      obtain ⟨-, larger, hlarger, -⟩ := hgapped.missing gap.first (le_refl _) hgapped.filled
      rw [run_unsignable hjcs hlevel hsignable calls hrestarts] at hlarger
      cases hlarger
  refine ⟨gaps, hgaps, hvisible, fun sessionId huntroubled gap hgap hsession => ?_⟩
  obtain ⟨hfilled, hall⟩ := hvisible gap hgap
  rw [hsession] at hall
  exact huntroubled.not_visible (hall gap.first (le_refl _) hfilled)

section

open Reference

-- An attempt under number 1 that is lost, and one under number 2 that is sealed.
def numberedAttempt (id : JsString) (n : Nat) : Json :=
  toolEvent SESSION_A id Outcome.ATTEMPTED (signedUnder "tool-1" n "c2lnbmVk")

def skippingRun : List Call :=
  [.openSession SESSION_A, .attempt (answering .reads .throws) (numberedAttempt EVENT_1 1) none false,
    .attempt (answering .reads .stores) (numberedAttempt EVENT_2 2) none false]

theorem skippingRun_visible :
    ∃ gaps, unaccountedSignerSeq primitives
        ((run primitives (World.new (tenant .L2)) skippingRun).chain.map fun record => some record.event) = .ok gaps ∧
      (∀ gap ∈ gaps, gap.first ≤ gap.last ∧ ∀ v, gap.first ≤ v → v ≤ gap.last →
        Visible (receptions primitives (World.new (tenant .L2)) skippingRun) gap.key_id gap.session_id v) ∧
      ∀ sessionId, Untroubled (receptions primitives (World.new (tenant .L2)) skippingRun) sessionId →
        ∀ gap ∈ gaps, gap.session_id ≠ sessionId :=
  gaps_visible primitives primitives_faithful (tenant .L2) rfl skippingRun (by decide)
    (by simp [skippingRun, Call.Clocked, Call.answers]; decide) (by decide +kernel)
    (digestsTell_of_nodup (by decide +kernel))

end

end AuditableMcp
