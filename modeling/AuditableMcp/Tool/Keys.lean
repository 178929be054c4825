import AuditableMcp.Host.Arrivals
import AuditableMcp.Tool.Numbering
import AuditableMcp.Verify.Visibility

-- The sequences of the keys that sign on one numbering, as the host and the verifier count them.
namespace AuditableMcp

def eventsUnder (keyId : JsString) (events : List Json) : List Json :=
  events.filter fun event => Json.isText (event.get Fields.KEY_ID) keyId

-- Under each key the numbers start at 0 and follow one another.
def KeysInOrder (events : List Json) : Prop :=
  ∀ keyId, signerSeqs (eventsUnder keyId events) = numbersFrom 0 (eventsUnder keyId events).length

-- Whoever delivered an event signs under the same key.
def OneKey (keys : Nat → JsString) (log : SessionLog) : Prop :=
  ∀ first ∈ log, ∀ second ∈ log, (deliveryOf first.2).isSome → (deliveryOf second.2).isSome → keys first.1 = keys second.1

-- The sequences of a session's keys, as delivered, as the host counts them and as the verifier does.
structure SequencesKept (P : Primitives) (sessionId : JsString) (w : World) (calls : List Call) (events : List Json) : Prop where
  order : KeysInOrder events
  unflagged : ∀ arrival ∈ arrivals P sessionId w calls, ¬arrival.flags .signerSeqGap
  accounted : ∃ gaps, unaccountedSignerSeq P ((run P w calls).chain.map fun record => some record.event) = .ok gaps ∧
    ∀ gap ∈ gaps, gap.session_id ≠ sessionId

section Order

variable {events : List Json}

theorem number_of_signerSeqs {start i : Nat} (h : signerSeqs events = numbersFrom start events.length) (hi : i < events.length) :
    events[i].get Fields.SIGNER_SEQ = some (.num (.ofNat (start + i))) := by
  have hget := congrArg (fun seqs => seqs[i]?) h
  simpa [signerSeqs, numbersFrom, hi] using hget

-- In one sequence without repetition, the first number stands under one key only.
theorem KeysInOrder.same_key (hkeys : KeysInOrder events) (hnumbers : signerSeqs events = numbersFrom 0 events.length)
    {first second : Json} {keyId other : JsString} (hfirst : first ∈ events) (hsecond : second ∈ events)
    (hkey : first.get Fields.KEY_ID = some (.str keyId)) (hother : second.get Fields.KEY_ID = some (.str other)) :
    keyId = other := by
  -- Each key has an event with number 0, and that is the first one delivered.
  have hzero : ∀ event ∈ events, ∀ key, event.get Fields.KEY_ID = some (.str key) →
      ∃ h : 0 < events.length, events[0].get Fields.KEY_ID = some (.str key) := by
    intro event hmem key hkey
    have hunder : event ∈ eventsUnder key events := List.mem_filter.mpr ⟨hmem, Json.isText_eq_true.mpr hkey⟩
    have hpos : 0 < (eventsUnder key events).length := List.length_pos_of_mem hunder
    have hnumber := number_of_signerSeqs (hkeys key) hpos
    obtain ⟨hlead, hleadKey⟩ := List.mem_filter.mp (List.getElem_mem hpos)
    obtain ⟨i, hi, heq⟩ := List.getElem_of_mem hlead
    have hi' := number_of_signerSeqs hnumbers hi
    rw [heq, hnumber] at hi'
    obtain rfl : i = 0 := by
      have hsame : (JsNum.ofNat (0 + 0)) = .ofNat (0 + i) := by simpa using hi'
      simpa [JsNum.ofNat] using hsame.symm
    exact ⟨hi, by rw [heq]; exact Json.isText_eq_true.mp hleadKey⟩
  obtain ⟨_, hk⟩ := hzero first hfirst keyId hkey
  obtain ⟨_, ho⟩ := hzero second hsecond other hother
  have hsame := hk.symm.trans ho
  simpa using hsame

theorem keysInOrder_of_one {keyId : JsString} (hkey : ∀ event ∈ events, event.get Fields.KEY_ID = some (.str keyId))
    (hnumbers : signerSeqs events = numbersFrom 0 events.length) : KeysInOrder events := by
  intro key
  by_cases hsame : key = keyId
  · have hall : eventsUnder key events = events :=
      List.filter_eq_self.mpr fun event hmem => Json.isText_eq_true.mpr (by rw [hsame]; exact hkey event hmem)
    rw [hall]
    exact hnumbers
  · have hnone : eventsUnder key events = [] := by
      apply List.filter_eq_nil_iff.mpr
      intro event hmem htext
      have hown := (Json.isText_eq_true.mp htext).symm.trans (hkey event hmem)
      exact hsame (by simpa using hown)
    rw [hnone]
    rfl

end Order

-- Where the events taken are all that is sealed of a session, and carry 0, 1, 2 and so on
-- under one key, the verifier misses none.
theorem InOrder.no_gap {P : Primitives} {sessionId keyId : JsString} {taken : List Json} {w : World}
    (h : InOrder sessionId keyId taken w) (hcurrent : ∀ record ∈ w.chain, CurrentEvent record.event)
    (hnamed : ∀ event ∈ taken, event.get Fields.SESSION_ID = some (.str sessionId))
    (hnumbers : ∀ i (hi : i < taken.length), numberOf taken[i] = some (keyId, .ofNat i)) {gaps : List UnaccountedSignerSeq}
    (hgaps : unaccountedSignerSeq P (w.chain.map fun record => some record.event) = .ok gaps) :
    ∀ gap ∈ gaps, gap.session_id ≠ sessionId := by
  intro gap hgap hsession
  have hgapped := unaccountedSignerSeq_gapped hgaps gap hgap
  obtain ⟨hmissing, n, hlarger, hlt⟩ := hgapped.missing gap.first (le_refl _) hgapped.filled
  obtain ⟨event, hlisted, hnumber⟩ := List.mem_filterMap.mp hlarger
  obtain ⟨record, hr, rfl⟩ := (listedEvents_current hcurrent).mp hlisted
  obtain ⟨hown, hlargerNumber⟩ := (numberIn_current (hcurrent record hr)).mp hnumber
  rw [hsession] at hown
  obtain ⟨i, hi, heq⟩ := List.getElem_of_mem (h.chain record hr hown)
  have hi' := hnumbers i hi
  rw [heq, hlargerNumber] at hi'
  obtain ⟨hkey, rfl⟩ : gap.key_id = keyId ∧ n = i := by simpa [JsNum.ofNat] using hi'
  -- The number reported missing was taken before the larger one, and so sealed.
  have hfirst : gap.first < taken.length := by omega
  obtain ⟨kept, hkept, hsame, hnumbered⟩ := h.sealed _ (List.getElem_mem hfirst)
  apply hmissing
  refine List.mem_filterMap.mpr ⟨kept.event, (listedEvents_current hcurrent).mpr ⟨kept, hkept, rfl⟩, ?_⟩
  rw [numberIn_current (hcurrent kept hkept), hsame, hnumbered, hsession, hkey]
  exact ⟨hnamed _ (List.getElem_mem hfirst), hnumbers _ hfirst⟩

section Deliveries

variable {keys : Nat → JsString} {start sent usedUp : Nat} {log : SessionLog}

theorem mem_deliveries {event : Json} : event ∈ deliveries log ↔ ∃ entry ∈ log, deliveryOf entry.2 = some event :=
  List.mem_filterMap

-- One key signs every event delivered, where only one delivers.
theorem Tally.one_key (h : Tally keys start log sent usedUp) (hone : OneKey keys log) :
    ∃ keyId, ∀ event ∈ deliveries log, event.get Fields.KEY_ID = some (.str keyId) := by
  by_cases hany : ∃ entry ∈ log, (deliveryOf entry.2).isSome
  · obtain ⟨entry, hmem, hdelivers⟩ := hany
    refine ⟨keys entry.1, fun event hevent => ?_⟩
    obtain ⟨other, hother, hevent⟩ := mem_deliveries.mp hevent
    rw [h.keyed other hother event hevent, hone other hother entry hmem (by rw [hevent]; rfl) hdelivers]
  · refine ⟨"", fun event hevent => ?_⟩
    obtain ⟨entry, hmem, hdelivers⟩ := mem_deliveries.mp hevent
    exact absurd ⟨entry, hmem, by rw [hdelivers]; rfl⟩ hany

theorem Tally.oneKey (h : Tally keys 0 log sent usedUp) (hkeys : KeysInOrder (deliveries log)) : OneKey keys log := by
  have hnumbers : signerSeqs (deliveries log) = numbersFrom 0 (deliveries log).length := by
    rw [h.delivered]
    exact h.numbers
  intro first hfirst second hsecond hdelivers hother
  obtain ⟨event, hevent⟩ := Option.isSome_iff_exists.mp hdelivers
  obtain ⟨later, hlater⟩ := Option.isSome_iff_exists.mp hother
  exact hkeys.same_key hnumbers (mem_deliveries.mpr ⟨first, hfirst, hevent⟩) (mem_deliveries.mpr ⟨second, hsecond, hlater⟩)
    (h.keyed first hfirst event hevent) (h.keyed second hsecond later hlater)

end Deliveries

-- Each key's sequence starts at 0 and is contiguous if and only if one key signs everything
-- on the numbering, whatever the interleaving, for a session a Level-2 host takes all events of.
theorem keys_in_order_iff {P : Primitives} (hjcs : JcsFaithful P) {keys : Nat → JsString}
    {s : Sharing.State SessionCall.Answer JsError Unit Nat} (h : Interleaves P keys 0 s) (config : HostConfig)
    (before calls : List Call) (hlevel : (run P (World.new config) before).host.config.capability.level = .L2)
    (hrestarts : ∀ call ∈ calls, call.restarts = false) (sessionId : JsString)
    (hfresh : sessionId ∉ (run P (World.new config) before).host.issued)
    (harrive : (arrivals P sessionId (run P (World.new config) before) calls).map Reception.event = deliveries s.log)
    (htaken : ∀ arrival ∈ arrivals P sessionId (run P (World.new config) before) calls, arrival.reply.takes = true) :
    SequencesKept P sessionId (run P (World.new config) before) calls (deliveries s.log) ↔ OneKey keys s.log := by
  obtain ⟨sent, usedUp, htally, -⟩ := h.tally
  have hnumbers : signerSeqs (deliveries s.log) = numbersFrom 0 (deliveries s.log).length := by
    rw [htally.delivered]
    exact htally.numbers
  constructor
  · intro hkept
    exact htally.oneKey hkept.order
  · intro hone
    obtain ⟨keyId, hkey⟩ := htally.one_key hone
    obtain ⟨_, _, hsound⟩ := run_sound (sound_new P config) before
    obtain ⟨_, _, hafter⟩ := run_sound hsound calls
    have hcurrent : ∀ record ∈ (run P (run P (World.new config) before) calls).chain, CurrentEvent record.event :=
      fun record hr => (hafter.soundChain.admissible record hr).current
    have hnumbered : ∀ i (hi : i < (deliveries s.log).length), numberOf (deliveries s.log)[i] = some (keyId, .ofNat i) := by
      intro i hi
      have hseq := number_of_signerSeqs hnumbers hi
      unfold numberOf
      rw [hkey _ (List.getElem_mem hi), hseq, Nat.zero_add]
    have hlength : (arrivals P sessionId (run P (World.new config) before) calls).length = (deliveries s.log).length := by
      rw [← harrive, List.length_map]
    have hcounted : (arrivals P sessionId (run P (World.new config) before) calls).map (fun arrival => numberOf arrival.event) =
        (List.range (arrivals P sessionId (run P (World.new config) before) calls).length).map
          fun n => some (keyId, .ofNat n) := by
      have hmap : (arrivals P sessionId (run P (World.new config) before) calls).map (fun arrival => numberOf arrival.event) =
          (deliveries s.log).map numberOf := by
        rw [← harrive, List.map_map]
        rfl
      rw [hlength, hmap]
      apply List.ext_getElem
      · simp
      · intro i hi _
        simpa using hnumbered i (by simpa using hi)
    obtain ⟨hordered, hrecorded⟩ := arrivals_taken hjcs hsound hlevel hfresh calls hrestarts htaken hcounted
    rw [harrive] at hordered
    refine ⟨keysInOrder_of_one hkey hnumbers, ?_, ?_⟩
    · rintro arrival hmem ⟨detail, hflagged⟩
      rw [hrecorded arrival hmem] at hflagged
      cases hflagged
    · obtain ⟨gaps, hgaps⟩ := unaccountedSignerSeq_current P hcurrent
      refine ⟨gaps, hgaps, hordered.no_gap hcurrent (fun event hmem => ?_) hnumbered hgaps⟩
      rw [← harrive] at hmem
      obtain ⟨arrival, ha, rfl⟩ := List.mem_map.mp hmem
      exact arrivals_named ha

section Runs
open Reference

def signers (second : JsString) (who : Nat) : JsString := if who = 0 then "key-1" else second

-- Two sessions on one numbering, as far as the answers to their attempts. The second signs
-- under the key given.
def attempting (second : JsString) : Sharing.State SessionCall.Answer JsError Unit Nat :=
  let S := SessionNumbering primitives (signers second)
  (List.replicate 12 [0, 1]).flatten.foldl
    (Sharing.State.go S fun who => signingWorld (signers second who) (if who = 0 then EVENT_1 else EVENT_2) acceptedResponse)
    (((Sharing.State.new 0).spawn S (ending "key-1")).spawn S (ending second))

theorem attempting_interleaves (second : JsString) : Interleaves primitives (signers second) 0 (attempting second) :=
  Sharing.Reaches.schedule
    (fun who c => signingWorld_stamps (signers second who) (if who = 0 then EVENT_1 else EVENT_2) acceptedResponse c)
    ((Sharing.Reaches.refl.spawn (ending_signing "key-1")).spawn (ending_signing second)) _

-- A host that opens the session and is delivered the events.
def deliveringRun (events : List Json) : List Call :=
  .openSession SESSION_A :: events.map fun event => .attempt (answering .reads .stores) event none false

-- Every event is in the session, and the host takes it.
def takesAll (events : List Json) : Bool :=
  (events.all fun event => Json.isText (event.get Fields.SESSION_ID) SESSION_A) &&
    (arrivals primitives SESSION_A (World.new (tenant .L2)) (deliveringRun events)).all fun arrival => arrival.reply.takes

theorem takesAll_arrivals {events : List Json} (h : takesAll events = true) :
    (arrivals primitives SESSION_A (World.new (tenant .L2)) (deliveringRun events)).map Reception.event = events ∧
      ∀ arrival ∈ arrivals primitives SESSION_A (World.new (tenant .L2)) (deliveringRun events), arrival.reply.takes = true := by
  obtain ⟨hnamed, htaken⟩ := Bool.and_eq_true_iff.mp h
  refine ⟨?_, List.all_eq_true.mp htaken⟩
  have hevents : (deliveringRun events).filterMap Call.event = events := by
    rw [deliveringRun, List.filterMap_cons_none rfl, List.filterMap_map]
    exact List.filterMap_some
  rw [arrivals_events, hevents]
  exact List.filter_eq_self.mpr (List.all_eq_true.mp hnamed)

theorem attempting_in_order :
    SequencesKept primitives SESSION_A (World.new (tenant .L2)) (deliveringRun (deliveries (attempting "key-1").log))
        (deliveries (attempting "key-1").log) ↔
      OneKey (signers "key-1") (attempting "key-1").log :=
  have htaken : takesAll (deliveries (attempting "key-1").log) = true := by decide +kernel
  keys_in_order_iff primitives_faithful (attempting_interleaves "key-1") (tenant .L2) []
    (deliveringRun (deliveries (attempting "key-1").log)) rfl (by simp [deliveringRun, Call.restarts]) SESSION_A
    (by simp [run, World.new, AuditHost.new]) (takesAll_arrivals htaken).1 (takesAll_arrivals htaken).2

-- The second key's sequence starts at 1.
theorem second_key_gapped : ¬∀ (P : Primitives), JcsFaithful P → ∀ (keys : Nat → JsString)
    (s : Sharing.State SessionCall.Answer JsError Unit Nat), Interleaves P keys 0 s → ∀ (config : HostConfig),
    config.capability.level = .L2 → ∀ (calls : List Call), (∀ call ∈ calls, call.restarts = false) →
    ∀ sessionId, (arrivals P sessionId (World.new config) calls).map Reception.event = deliveries s.log →
    (∀ arrival ∈ arrivals P sessionId (World.new config) calls, arrival.reply.takes = true) →
    SequencesKept P sessionId (World.new config) calls (deliveries s.log) := by
  intro hclaim
  have hrun : (takesAll (deliveries (attempting "key-2").log) &&
      (arrivals primitives SESSION_A (World.new (tenant .L2)) (deliveringRun (deliveries (attempting "key-2").log))).any
        fun arrival => arrival.recorded.any fun anomaly =>
          anomaly.id = eventId arrival.event && anomaly.kind = .signerSeqGap) = true := by decide +kernel
  obtain ⟨htaken, hflagged⟩ := Bool.and_eq_true_iff.mp hrun
  have hkept := hclaim primitives primitives_faithful (signers "key-2") (attempting "key-2") (attempting_interleaves "key-2")
    (tenant .L2) rfl (deliveringRun (deliveries (attempting "key-2").log)) (by simp [deliveringRun, Call.restarts]) SESSION_A
    (takesAll_arrivals htaken).1 (takesAll_arrivals htaken).2
  obtain ⟨arrival, hmem, hany⟩ := List.any_eq_true.mp hflagged
  obtain ⟨anomaly, hrecorded, hgap⟩ := List.any_eq_true.mp hany
  simp only [Bool.and_eq_true, decide_eq_true_eq] at hgap
  obtain ⟨id, kind, detail⟩ := anomaly
  obtain ⟨rfl, rfl⟩ := hgap
  exact hkept.unflagged arrival hmem ⟨detail, hrecorded⟩

end Runs
end AuditableMcp
