import AuditableMcp.Mcp.Rounds

-- What a round hands to the endpoint, wherever its deadline falls.
namespace AuditableMcp.Mcp

-- What `#processRound` does at the endpoint: an attempt handed to `handleAttempt`, an item
-- handed to `handleOutcome`, and the end of that sealing. The number is the item's place.
inductive Deed where
  | decides (index : Nat) (event : Json)
  | seals (event : Json)
  | sealed (event : Json)

structure Handing where
  deeds : List Deed
  -- An outcome being sealed at the deadline.
  inProgress : Option Json

def Handing.after (deeds : List Deed) (handing : Handing) : Handing := { handing with deeds := deeds ++ handing.deeds }

-- The loop of `#processRound`, as the endpoint sees it.
def handOver (decide : Bool) (race : Nat → Race) (index : Nat) (expired : Bool) (events : List Json) : Handing :=
  match events with
  | [] => ⟨[], none⟩
  | event :: rest =>
      if expired then ⟨[], none⟩
      else
        match answerableAttempt event with
        | some _ =>
            if decide then
              match race index with
              | .settled _ expired => (handOver decide race (index + 1) expired rest).after [.decides index event]
              | .deadline => ⟨[.decides index event], none⟩
            else handOver decide race (index + 1) expired rest
        | none =>
            match race index with
            | .settled _ expired =>
                (handOver decide race (index + 1) expired rest).after [.seals event, .sealed event]
            | .deadline => ⟨[.seals event], some event⟩

def sealing (event : Json) : List Deed := [.seals event, .sealed event]

-- The `rest` that `#processRound` returns: what is in progress is waited for first.
def restDeeds (inProgress : Option Json) (outcomes : List Json) : List Deed :=
  (inProgress.map Deed.sealed).toList ++ outcomes.flatMap sealing

-- The round, and its rest as the session's queue runs it.
def roundDeeds (decide : Bool) (race : Nat → Race) (events : List Json) : List Deed :=
  (handOver decide race 0 false events).deeds ++
    match (processRound decide race events).rest with
    | some outcomes => restDeeds (handOver decide race 0 false events).inProgress outcomes
    | none => []

def Deed.isSealing : Deed → Bool
  | .decides _ _ => false
  | _ => true

-- The places of the attempts handed over, as they are.
def handedOver (deeds : List Deed) : List Nat :=
  deeds.filterMap fun deed => match deed with | .decides index _ => some index | _ => none

-- The answer to the attempt at a place: what was decided in time, if it was handed over.
def answerAt (race : Nat → Race) (handed : List Nat) (index : Nat) : Json :=
  if index ∈ handed then
    match race index with
    | .settled answer _ => decision answer
    | .deadline => unavailableResponse
  else unavailableResponse

def outcomesOf (events : List Json) : List Json := events.filter fun event => (answerableAttempt event).isNone

section

variable {decide : Bool} {race : Nat → Race} {index : Nat} {expired : Bool} {events : List Json}

-- Only a deadline leaves a sealing in progress.
theorem expired_of_inProgress {event : Json} (h : (handOver decide race index expired events).inProgress = some event) :
    (processItems decide race index expired events).expired = true := by
  induction events generalizing index expired with
  | nil => cases h
  | cons item rest ih =>
      unfold handOver at h
      unfold processItems
      by_cases hexpired : expired = true
      · rw [if_pos hexpired] at h
        cases h
      · rw [if_neg hexpired] at h ⊢
        cases hid : answerableAttempt item with
        | some id =>
            rw [hid] at h
            cases decide with
            | false => exact ih h
            | true =>
                cases hrace : race index with
                | settled answer late =>
                    rw [hrace] at h
                    exact ih h
                | deadline => rfl
        | none =>
            rw [hid] at h
            cases hrace : race index with
            | settled answer late =>
                rw [hrace] at h
                exact ih h
            | deadline => rfl

-- Over the loop and the rest, each outcome is sealed once, after the one before it.
theorem handOver_sealings :
    (handOver decide race index expired events).deeds.filter Deed.isSealing ++
      restDeeds (handOver decide race index expired events).inProgress
        (outcomesOf (processItems decide race index expired events).remaining) =
      (outcomesOf events).flatMap sealing := by
  induction events generalizing index expired with
  | nil => rfl
  | cons item rest ih =>
      unfold handOver processItems
      by_cases hexpired : expired = true
      · rw [if_pos hexpired, if_pos hexpired]
        rfl
      · rw [if_neg hexpired, if_neg hexpired]
        cases hid : answerableAttempt item with
        | some id =>
            have hpassed : outcomesOf (item :: rest) = outcomesOf rest := by simp [outcomesOf, hid]
            rw [hpassed]
            cases decide with
            | false => exact ih
            | true =>
                cases hrace : race index with
                | settled answer late => exact ih
                | deadline => rfl
        | none =>
            have hown : outcomesOf (item :: rest) = item :: outcomesOf rest := by simp [outcomesOf, hid]
            rw [hown, List.flatMap_cons]
            cases hrace : race index with
            | settled answer late =>
                rw [← @ih (index + 1) late]
                rfl
            | deadline => rfl

theorem roundDeeds_sealings :
    (roundDeeds decide race events).filter Deed.isSealing = (outcomesOf events).flatMap sealing := by
  have hall := @handOver_sealings decide race 0 false events
  have hpending := fun event => @expired_of_inProgress decide race 0 false events event
  have hsealing : ∀ inProgress outcomes, (restDeeds inProgress outcomes).filter Deed.isSealing =
      restDeeds inProgress outcomes := by
    intro inProgress outcomes
    rw [List.filter_eq_self]
    intro deed hmem
    unfold restDeeds at hmem
    rcases List.mem_append.mp hmem with hpending | hlater
    · obtain ⟨event, -, rfl⟩ := Option.map_eq_some_iff.mp (Option.mem_toList.mp hpending)
      rfl
    · obtain ⟨event, -, hdeed⟩ := List.mem_flatMap.mp hlater
      simp only [sealing, List.mem_cons, List.not_mem_nil, or_false] at hdeed
      rcases hdeed with rfl | rfl
      · rfl
      · rfl
  unfold roundDeeds processRound
  dsimp only
  split
  · rename_i outcomes hrest
    split at hrest
    · cases hrest
    · obtain rfl := Option.some.inj hrest
      rw [List.filter_append, hsealing]
      exact hall
  · rename_i hrest
    split at hrest
    · rename_i hdone
      -- Nothing was cut off, so nothing is left to seal.
      have hnone : (handOver decide race 0 false events).inProgress = none := by
        by_contra hsome
        obtain ⟨event, hevent⟩ := Option.ne_none_iff_exists'.mp hsome
        have hexpired := hpending event hevent
        rw [hdone.1] at hexpired
        cases hexpired
      rw [hnone, hdone.2] at hall
      simpa [restDeeds, outcomesOf] using hall
    · cases hrest

-- Only attempts are handed to be decided, each with its place, and only where they are to be.
theorem handOver_decides {i : Nat} {event : Json} (h : Deed.decides i event ∈ (handOver decide race index expired events).deeds) :
    decide = true ∧ ∃ k, i = index + k ∧ events[k]? = some event ∧ (answerableAttempt event).isSome := by
  induction events generalizing index expired with
  | nil => cases h
  | cons item rest ih =>
      have hlater : ∀ {late : Bool}, Deed.decides i event ∈ (handOver decide race (index + 1) late rest).deeds →
          decide = true ∧ ∃ k, i = index + k ∧ (item :: rest)[k]? = some event ∧ (answerableAttempt event).isSome := by
        intro late hmem
        obtain ⟨hdecide, k, hi, hk, hid⟩ := ih hmem
        exact ⟨hdecide, k + 1, by omega, by simpa using hk, hid⟩
      have hown : ∀ {id : JsString}, answerableAttempt item = some id → decide = true →
          Deed.decides i event = .decides index item →
          decide = true ∧ ∃ k, i = index + k ∧ (item :: rest)[k]? = some event ∧ (answerableAttempt event).isSome := by
        rintro id hid hdecide heq
        obtain ⟨rfl, rfl⟩ := Deed.decides.inj heq
        exact ⟨hdecide, 0, rfl, rfl, by rw [hid]; rfl⟩
      unfold handOver at h
      by_cases hexpired : expired = true
      · rw [if_pos hexpired] at h
        cases h
      · rw [if_neg hexpired] at h
        cases hid : answerableAttempt item with
        | some id =>
            rw [hid] at h
            cases decide with
            | false => exact hlater h
            | true =>
                cases hrace : race index with
                | settled answer late =>
                    rw [hrace] at h
                    rcases List.mem_cons.mp h with heq | hmem
                    · exact hown hid rfl heq
                    · exact hlater hmem
                | deadline =>
                    rw [hrace] at h
                    exact hown hid rfl (List.mem_singleton.mp h)
        | none =>
            rw [hid] at h
            cases hrace : race index with
            | settled answer late =>
                rw [hrace] at h
                rcases List.mem_append.mp h with hseals | hmem
                · simp at hseals
                · exact hlater hmem
            | deadline =>
                rw [hrace] at h
                simp at h

@[simp] theorem handedOver_append (first second : List Deed) :
    handedOver (first ++ second) = handedOver first ++ handedOver second := List.filterMap_append

@[simp] theorem handedOver_seals (deeds : List Deed) (event : Json) : handedOver (.seals event :: deeds) = handedOver deeds := rfl

@[simp] theorem handedOver_sealed (deeds : List Deed) (event : Json) : handedOver (.sealed event :: deeds) = handedOver deeds := rfl

@[simp] theorem handedOver_decides (deeds : List Deed) (i : Nat) (event : Json) :
    handedOver (.decides i event :: deeds) = i :: handedOver deeds := rfl

theorem handedOver_restDeeds (inProgress : Option Json) (outcomes : List Json) : handedOver (restDeeds inProgress outcomes) = [] := by
  have houtcomes : handedOver (outcomes.flatMap sealing) = [] := by
    induction outcomes with
    | nil => rfl
    | cons event rest ih => exact ih
  unfold restDeeds
  rw [handedOver_append, houtcomes]
  cases inProgress <;> rfl

theorem handedOver_roundDeeds :
    handedOver (roundDeeds decide race events) = handedOver (handOver decide race 0 false events).deeds := by
  unfold roundDeeds
  rw [handedOver_append]
  cases (processRound decide race events).rest with
  | none => exact List.append_nil _
  | some outcomes => rw [handedOver_restDeeds, List.append_nil]

theorem le_of_handedOver {i : Nat} (h : i ∈ handedOver (handOver decide race index expired events).deeds) : index ≤ i := by
  obtain ⟨deed, hmem, hplace⟩ := List.mem_filterMap.mp h
  cases deed with
  | decides place event =>
      obtain rfl : place = i := Option.some.inj hplace
      obtain ⟨-, k, rfl, -⟩ := handOver_decides hmem
      exact Nat.le_add_right index k
  | seals event => cases hplace
  | sealed event => cases hplace

-- Attempts are handed over in the order of their places, each once.
theorem handedOver_increasing : (handedOver (handOver decide race index expired events).deeds).Pairwise (· < ·) := by
  induction events generalizing index expired with
  | nil => exact .nil
  | cons item rest ih =>
      unfold handOver
      by_cases hexpired : expired = true
      · rw [if_pos hexpired]
        exact .nil
      · rw [if_neg hexpired]
        cases hid : answerableAttempt item with
        | some id =>
            cases decide with
            | false => exact ih
            | true =>
                cases hrace : race index with
                | settled answer late =>
                    refine List.pairwise_cons.mpr ⟨fun i hi => ?_, ih⟩
                    have hle := le_of_handedOver hi
                    omega
                | deadline => exact List.pairwise_singleton _ _
        | none =>
            cases hrace : race index with
            | settled answer late => exact ih
            | deadline => exact .nil

-- The answers, each by the place of its attempt.
def answersFrom (race : Nat → Race) (handed : List Nat) (index : Nat) (events : List Json) : List (JsString × Json) :=
  (events.zipIdx index).filterMap fun item => (answerableAttempt item.1).map fun id => (id, answerAt race handed item.2)

theorem answersFrom_congr {handed others : List Nat} (h : ∀ i, index ≤ i → (i ∈ handed ↔ i ∈ others)) :
    answersFrom race handed index events = answersFrom race others index events := by
  apply List.filterMap_congr
  intro item hmem
  have hle : index ≤ item.2 := List.le_snd_of_mem_zipIdx hmem
  unfold answerAt
  simp only [h item.2 hle]

-- Attempts that were not handed over are answered `unavailable`.
theorem answersFrom_nil : answersFrom race [] index events =
    (events.filterMap answerableAttempt).map fun id => (id, unavailableResponse) := by
  induction events generalizing index with
  | nil => rfl
  | cons item rest ih =>
      have hrest := @ih (index + 1)
      unfold answersFrom at hrest ⊢
      rw [List.zipIdx_cons]
      cases hid : answerableAttempt item with
      | some id =>
          rw [List.filterMap_cons_some hid, List.map_cons, ← hrest]
          simp [hid, answerAt]
      | none =>
          rw [List.filterMap_cons_none hid, ← hrest]
          simp [hid]

theorem answersFrom_cons_some {handed : List Nat} {item : Json} {id : JsString} (hid : answerableAttempt item = some id) :
    answersFrom race handed index (item :: events) =
      (id, answerAt race handed index) :: answersFrom race handed (index + 1) events := by
  simp [answersFrom, List.zipIdx_cons, hid]

theorem answersFrom_cons_none {handed : List Nat} {item : Json} (hid : answerableAttempt item = none) :
    answersFrom race handed index (item :: events) = answersFrom race handed (index + 1) events := by
  simp [answersFrom, List.zipIdx_cons, hid]

theorem processItems_answers :
    (processItems true race index expired events).answers ++
      ((processItems true race index expired events).remaining.filterMap answerableAttempt).map
        (fun id => (id, unavailableResponse)) =
      answersFrom race (handedOver (handOver true race index expired events).deeds) index events := by
  induction events generalizing index expired with
  | nil => rfl
  | cons item rest ih =>
      unfold processItems handOver
      by_cases hexpired : expired = true
      · rw [if_pos hexpired, if_pos hexpired]
        exact answersFrom_nil.symm
      · rw [if_neg hexpired, if_neg hexpired]
        cases hid : answerableAttempt item with
        | some id =>
            rw [answersFrom_cons_some hid]
            cases hrace : race index with
            | settled answer late =>
                have hown : answerAt race (index :: handedOver (handOver true race (index + 1) late rest).deeds) index =
                    decision answer := by simp [answerAt, hrace]
                have hlater := @answersFrom_congr race (index + 1) rest
                  (index :: handedOver (handOver true race (index + 1) late rest).deeds)
                  (handedOver (handOver true race (index + 1) late rest).deeds) (fun i hi => by simp; omega)
                simp only [Handing.after, List.cons_append, List.nil_append, handedOver_decides, Processed.answered, if_true]
                rw [hown, hlater, ← ih]
            | deadline =>
                have hown : answerAt race [index] index = unavailableResponse := by simp [answerAt, hrace]
                have hlater := @answersFrom_congr race (index + 1) rest [index] [] (fun i hi => by simp; omega)
                simp only [if_true]
                rw [show handedOver [Deed.decides index item] = [index] from rfl, hown, hlater, answersFrom_nil]
                rfl
        | none =>
            rw [answersFrom_cons_none hid]
            cases hrace : race index with
            | settled answer late => exact ih
            | deadline => exact answersFrom_nil.symm

theorem roundAnswers_eq :
    roundAnswers true race events = answersFrom race (handedOver (roundDeeds true race events)) 0 events := by
  rw [handedOver_roundDeeds, ← processItems_answers]
  rfl

-- A round processed completely, once and in order.
structure RoundProcessed (decide : Bool) (race : Nat → Race) (events : List Json) : Prop where
  keys : decide = true → ∀ id, id ∈ (processRound decide race events).responses.map Prod.fst ↔
    id ∈ events.filterMap answerableAttempt
  answers : decide = true → ∀ (i : Nat) (event : Json) (id : JsString), events[i]? = some event →
    answerableAttempt event = some id → Json.lookup (processRound decide race events).responses id =
      some (answerAt race (handedOver (roundDeeds decide race events)) i)
  attempts : ∀ i event, Deed.decides i event ∈ roundDeeds decide race events →
    decide = true ∧ events[i]? = some event ∧ (answerableAttempt event).isSome
  once : (handedOver (roundDeeds decide race events)).Pairwise (· < ·)
  outcomes : (roundDeeds decide race events).filter Deed.isSealing = (outcomesOf events).flatMap sealing

theorem roundDeeds_decides {i : Nat} {event : Json} (h : Deed.decides i event ∈ roundDeeds decide race events) :
    decide = true ∧ events[i]? = some event ∧ (answerableAttempt event).isSome := by
  have hloop : Deed.decides i event ∈ (handOver decide race 0 false events).deeds := by
    unfold roundDeeds at h
    rcases List.mem_append.mp h with hloop | hrest
    · exact hloop
    · -- The rest only seals.
      cases hr : (processRound decide race events).rest with
      | none =>
          rw [hr] at hrest
          cases hrest
      | some outcomes =>
          rw [hr] at hrest
          have hplace : i ∈ handedOver (restDeeds (handOver decide race 0 false events).inProgress outcomes) :=
            List.mem_filterMap.mpr ⟨_, hrest, rfl⟩
          rw [handedOver_restDeeds] at hplace
          cases hplace
  obtain ⟨hdecide, k, hi, hk, hid⟩ := handOver_decides hloop
  rw [Nat.zero_add] at hi
  exact ⟨hdecide, hi ▸ hk, hid⟩

theorem responses_keys (hdistinct : (events.filterMap answerableAttempt).Nodup) {id : JsString} :
    id ∈ (processRound true race events).responses.map Prod.fst ↔
      id ∈ events.filterMap answerableAttempt ∧ id ≠ Zod.PROTO := by
  rw [← @roundAnswers_ids race, List.mem_map, List.mem_map]
  constructor
  · rintro ⟨entry, hmem, rfl⟩
    obtain ⟨hanswer, hne⟩ := (mem_responses hdistinct).mp hmem
    exact ⟨⟨entry, hanswer, rfl⟩, hne⟩
  · rintro ⟨⟨entry, hanswer, rfl⟩, hne⟩
    exact ⟨entry, (mem_responses hdistinct).mpr ⟨hanswer, hne⟩, rfl⟩

theorem responses_answers (hdistinct : (events.filterMap answerableAttempt).Nodup)
    (hproto : Zod.PROTO ∉ events.filterMap answerableAttempt) {i : Nat} {event : Json} {id : JsString}
    (hevent : events[i]? = some event) (hid : answerableAttempt event = some id) :
    Json.lookup (processRound true race events).responses id =
      some (answerAt race (handedOver (roundDeeds true race events)) i) := by
  have hmem : id ∈ events.filterMap answerableAttempt :=
    List.mem_filterMap.mpr ⟨event, List.mem_of_getElem? hevent, hid⟩
  have hanswer : (id, answerAt race (handedOver (roundDeeds true race events)) i) ∈ roundAnswers true race events := by
    rw [roundAnswers_eq]
    refine List.mem_filterMap.mpr ⟨(event, i), ?_, by rw [hid]; rfl⟩
    exact List.mem_zipIdx_iff_getElem?.mpr hevent
  have hentry := (mem_responses hdistinct).mpr ⟨hanswer, fun heq => hproto (heq ▸ hmem)⟩
  refine lookup_of_mem ?_ hentry
  rw [processRound_responses hdistinct]
  rw [← @roundAnswers_ids race] at hdistinct
  exact hdistinct.sublist (List.filter_sublist.map _)

-- Whatever the endpoint does and wherever the deadline falls, a round of distinct ids is
-- processed completely, once and in order, if and only if no attempt to decide is called `__proto__`.
theorem round_processed_iff (decide : Bool) (race : Nat → Race) (events : List Json)
    (hdistinct : (events.filterMap answerableAttempt).Nodup) :
    RoundProcessed decide race events ↔ (decide = true → Zod.PROTO ∉ events.filterMap answerableAttempt) := by
  constructor
  · rintro hprocessed rfl hmem
    have hkey := (hprocessed.keys rfl Zod.PROTO).mpr hmem
    exact ((responses_keys hdistinct).mp hkey).2 rfl
  · intro hproto
    refine ⟨?_, ?_, fun i event hmem => roundDeeds_decides hmem, ?_, roundDeeds_sealings⟩
    · rintro rfl id
      rw [responses_keys hdistinct]
      exact and_iff_left_of_imp fun hmem heq => hproto rfl (heq ▸ hmem)
    · rintro rfl i event id hevent hid
      exact responses_answers hdistinct (hproto rfl) hevent hid
    · rw [handedOver_roundDeeds]
      exact handedOver_increasing

end

section

open Reference

-- Two attempts with an outcome between them. The deadline falls while the outcome is sealed.
def cutOffRound (id : JsString) : List Json :=
  [bareAttempt id, toolEvent SESSION_A EVENT_2 Outcome.SUCCESS [], bareAttempt EVENT_2]

def cutOffAt (place : Nat) (index : Nat) : Race :=
  if index = place then .deadline else .settled (.ok acceptedResponse) false

theorem cutOffRound_ids (id : JsString) : (cutOffRound id).filterMap answerableAttempt = [id, EVENT_2] := by
  have houtcome : answerableAttempt (toolEvent SESSION_A EVENT_2 Outcome.SUCCESS []) = none := by decide +kernel
  have hattempt : ∀ id, answerableAttempt (bareAttempt id) = some id := fun _ => rfl
  simp [cutOffRound, houtcome, hattempt]

theorem cutOffRound_processed : RoundProcessed true (cutOffAt 1) (cutOffRound EVENT_1) :=
  (round_processed_iff true (cutOffAt 1) (cutOffRound EVENT_1) (by rw [cutOffRound_ids]; decide)).mpr
    fun _ => by rw [cutOffRound_ids]; decide

-- An attempt called `__proto__` gets no answer.
theorem proto_unanswered : ¬∀ (race : Nat → Race) (events : List Json), (events.filterMap answerableAttempt).Nodup →
    RoundProcessed true race events := by
  intro h
  have hprocessed := h (cutOffAt 1) (cutOffRound Zod.PROTO) (by rw [cutOffRound_ids]; decide)
  have hkey := (hprocessed.keys rfl Zod.PROTO).mpr (by rw [cutOffRound_ids]; simp)
  exact ((responses_keys (by rw [cutOffRound_ids]; decide)).mp hkey).2 rfl

end

end AuditableMcp.Mcp
