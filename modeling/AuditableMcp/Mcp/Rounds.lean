import AuditableMcp.Reference.Events
import AuditableMcp.Sealed
import AuditableMcp.Tool.Session

-- One audit round of a call: the host answers the events a result carries, and the tool
-- reads the answers off the retry (mcp/seam.ts).
namespace AuditableMcp.Mcp

def META : JsString := "_meta"

def REQUEST_STATE : JsString := "requestState"

def EXTENSION_ID : JsString := "com.timberlandchapel/auditable-mcp"

abbrev Members := List (JsString × Json)

-- `{ ...members, [name]: value }`
def withMember (members : Members) (name : JsString) (value : Json) : Members :=
  match members with
  | [] => [(name, value)]
  | (key, old) :: rest => if key = name then (name, value) :: rest else (key, old) :: withMember rest name value

-- `members[name] = value`, which for `__proto__` sets no member.
def assign (members : Members) (name : JsString) (value : Json) : Members :=
  if name = Zod.PROTO then members else withMember members name value

def metaOf (params : Option Json) : Members :=
  match params.bind fun value => value.get META with
  | some (.obj members) => members
  | _ => []

-- The id of an item that a retry's `responses` can answer: an attempt with a string `id`.
def answerableAttempt (item : Json) : Option JsString :=
  match item with
  | .obj members =>
      if Json.isText (Json.get (.obj members) Fields.OUTCOME) Outcome.ATTEMPTED then
        match Json.get (.obj members) Fields.ID with
        | some (.str id) => some id
        | _ => none
      else none
  | _ => none

def auditRequestMetaSchema : Zod.Schema := Zod.strictObject
  [⟨Fields.SESSION_ID, Zod.regex SESSION_ID_PATTERN⟩,
   ⟨Fields.RESPONSES, Zod.optional (Zod.recordOf (Zod.regex UUID_PATTERN) attemptResponseSchema)⟩]

section Host

-- What one turn of the loop waited for, against the round's deadline.
inductive Race where
  | settled (answer : Except JsError Json) (expired : Bool)
  | deadline

-- `#decision`: an endpoint that threw has decided nothing.
def decision (answer : Except JsError Json) : Json :=
  match answer with
  | .ok response => response
  | .error _ => unavailableResponse

structure Processed where
  -- The answers in the order they are entered in `responses`.
  answers : List (JsString × Json)
  remaining : List Json
  expired : Bool

def Processed.answered (processed : Processed) (id : JsString) (response : Json) : Processed :=
  { processed with answers := (id, response) :: processed.answers }

-- The loop of `#processRound`, one turn an item.
def processItems (decide : Bool) (race : Nat → Race) (index : Nat) (expired : Bool) (events : List Json) : Processed :=
  match events with
  | [] => ⟨[], [], expired⟩
  | event :: rest =>
      if expired then ⟨[], event :: rest, true⟩
      else
        match answerableAttempt event with
        | some id =>
            if decide then
              match race index with
              | .settled answer expired =>
                  (processItems decide race (index + 1) expired rest).answered id (decision answer)
              | .deadline => ⟨[(id, unavailableResponse)], rest, true⟩
            else processItems decide race (index + 1) expired rest
        | none =>
            match race index with
            | .settled _ expired => processItems decide race (index + 1) expired rest
            | .deadline => ⟨[], rest, true⟩

-- The answers of `#processRound`: what was decided, and `unavailable` to each attempt the
-- deadline cut off.
def roundAnswers (decide : Bool) (race : Nat → Race) (events : List Json) : List (JsString × Json) :=
  let processed := processItems decide race 0 false events
  if decide then
    processed.answers ++ (processed.remaining.filterMap answerableAttempt).map fun id => (id, unavailableResponse)
  else processed.answers

structure ProcessedRound where
  responses : Members
  -- The outcomes sealed after the call goes on, where the deadline cut the round off.
  rest : Option (List Json)

def processRound (decide : Bool) (race : Nat → Race) (events : List Json) : ProcessedRound :=
  let processed := processItems decide race 0 false events
  { responses := (roundAnswers decide race events).foldl (fun responses entry => assign responses entry.1 entry.2) []
    rest :=
      if processed.expired = false ∧ processed.remaining = [] then none
      else some (processed.remaining.filter fun event => (answerableAttempt event).isNone) }

def auditMember (sessionId : JsString) (responses : Members) : Json :=
  .obj [(Fields.SESSION_ID, .str sessionId), (Fields.RESPONSES, .obj responses)]

-- The parameters of a retry: the call's own, with the round's state and the answers.
def retryParams (params : Members) (state sessionId : JsString) (responses : Members) : Members :=
  let stated := withMember params REQUEST_STATE (.str state)
  withMember stated META
    (.obj (withMember (metaOf (some (.obj stated))) EXTENSION_ID (auditMember sessionId responses)))

end Host

section Tool

def readResponse (value : Json) : Json :=
  if attemptResponseSchema (some value) = none then value else unavailableResponse

-- An attempt in flight and how it was settled. The first settlement stands.
abbrev Pending := Option Json

def Pending.settle (pending : Pending) (response : Json) : Pending := pending.or (some response)

-- The answers a retry carries, where it carries them in this call's session.
def retryAnswers (session : Option JsString) (member : Option Json) : Members :=
  let named := member.bind fun value => value.get Fields.SESSION_ID
  if auditRequestMetaSchema member = none ∧ session.any (Json.isText named) then
    match member.bind fun value => value.get Fields.RESPONSES with
    | some (.obj members) => members.filter fun entry => entry.1 ≠ Zod.PROTO
    | _ => []
  else []

-- `#acceptRetry`: each attempt the round carried is settled.
def acceptRetry (session : Option JsString) (params : Json) (awaiting : List (JsString × Pending)) :
    List (JsString × Pending) :=
  let responses := retryAnswers session (Json.lookup (metaOf (some params)) EXTENSION_ID)
  awaiting.map fun entry =>
    (entry.1, Pending.settle entry.2
      (match Json.lookup responses entry.1 with
       | some response => readResponse response
       | none => unavailableResponse))

end Tool

section

variable {race : Nat → Race} {events : List Json}

-- Every attempt that can be answered is, in the round's order.
theorem processItems_ids (index : Nat) (expired : Bool) (events : List Json) :
    (processItems true race index expired events).answers.map Prod.fst ++
      (processItems true race index expired events).remaining.filterMap answerableAttempt =
        events.filterMap answerableAttempt := by
  induction events generalizing index expired with
  | nil => rfl
  | cons event rest ih =>
      unfold processItems
      by_cases hexpired : expired = true
      · rw [if_pos hexpired]
        rfl
      · rw [if_neg hexpired]
        cases hid : answerableAttempt event with
        | some id =>
            rw [List.filterMap_cons_some hid]
            cases hrace : race index with
            | settled answer late => simpa [Processed.answered] using ih (index + 1) late
            | deadline => simp
        | none =>
            rw [List.filterMap_cons_none hid]
            cases hrace : race index with
            | settled answer late => simpa using ih (index + 1) late
            | deadline => simp

theorem roundAnswers_ids : (roundAnswers true race events).map Prod.fst = events.filterMap answerableAttempt := by
  rw [← @processItems_ids race 0 false events]
  simp [roundAnswers, Function.comp_def]

theorem unavailable_valid : attemptResponseSchema (some unavailableResponse) = none := by decide +kernel

-- An endpoint whose answers are Attempt Responses.
def Answers (race : Nat → Race) : Prop :=
  ∀ index response late, race index = .settled (.ok response) late → attemptResponseSchema (some response) = none

theorem decision_valid (hanswers : Answers race) {index : Nat} {answer : Except JsError Json} {late : Bool}
    (h : race index = .settled answer late) : attemptResponseSchema (some (decision answer)) = none := by
  cases answer with
  | ok response => exact hanswers index response late h
  | error e => exact unavailable_valid

theorem processItems_valid (hanswers : Answers race) (decide : Bool) (index : Nat) (expired : Bool) (events : List Json) :
    ∀ entry ∈ (processItems decide race index expired events).answers,
      attemptResponseSchema (some entry.2) = none := by
  induction events generalizing index expired with
  | nil => simp [processItems]
  | cons event rest ih =>
      unfold processItems
      by_cases hexpired : expired = true
      · simp [hexpired]
      · rw [if_neg hexpired]
        cases hid : answerableAttempt event with
        | some id =>
            cases decide with
            | false => exact ih (index + 1) expired
            | true =>
                cases hrace : race index with
                | settled answer late =>
                    intro entry hentry
                    simp only [ite_true, Processed.answered] at hentry
                    rcases List.mem_cons.mp hentry with rfl | hrest
                    · exact decision_valid hanswers hrace
                    · exact ih (index + 1) late entry hrest
                | deadline =>
                    intro entry hentry
                    simp only [ite_true, List.mem_singleton] at hentry
                    rw [hentry]
                    exact unavailable_valid
        | none =>
            cases hrace : race index with
            | settled answer late => simpa using ih (index + 1) late
            | deadline => simp

theorem roundAnswers_valid (hanswers : Answers race) (decide : Bool) :
    ∀ entry ∈ roundAnswers decide race events, attemptResponseSchema (some entry.2) = none := by
  intro entry hentry
  unfold roundAnswers at hentry
  cases decide with
  | false => exact processItems_valid hanswers false 0 false events entry hentry
  | true =>
      rcases List.mem_append.mp hentry with hdecided | hlate
      · exact processItems_valid hanswers true 0 false events entry hdecided
      · obtain ⟨id, -, rfl⟩ := List.mem_map.mp hlate
        exact unavailable_valid

end

section

variable {members : Members} {name : JsString} {value : Json}

theorem lookup_withMember (key : JsString) :
    Json.lookup (withMember members name value) key = if name = key then some value else Json.lookup members key := by
  induction members with
  | nil => simp [withMember, Json.lookup]
  | cons member rest ih =>
      obtain ⟨own, old⟩ := member
      unfold withMember
      by_cases hown : own = name
      · subst hown
        by_cases hkey : own = key <;> simp [Json.lookup, hkey]
      · by_cases hkey : own = key
        · subst hkey
          simp [hown, Ne.symm hown, Json.lookup]
        · simp [hown, hkey, Json.lookup, ih]

theorem withMember_of_notMem (h : name ∉ members.map Prod.fst) :
    withMember members name value = members ++ [(name, value)] := by
  induction members with
  | nil => rfl
  | cons member rest ih =>
      obtain ⟨own, old⟩ := member
      simp only [List.map_cons, List.mem_cons, not_or] at h
      simp [withMember, Ne.symm h.1, ih h.2]

-- Entered under distinct names, the members are those entered, but for `__proto__`.
theorem foldl_assign (entries : List (JsString × Json)) (hdistinct : (entries.map Prod.fst).Nodup)
    (hapart : ∀ entry ∈ entries, entry.1 ∉ members.map Prod.fst) :
    entries.foldl (fun responses entry => assign responses entry.1 entry.2) members =
      members ++ entries.filter fun entry => entry.1 ≠ Zod.PROTO := by
  induction entries generalizing members with
  | nil => simp
  | cons entry rest ih =>
      obtain ⟨hfresh, hrest⟩ := List.nodup_cons.mp hdistinct
      rw [List.foldl_cons]
      by_cases hproto : entry.1 = Zod.PROTO
      · have hsame : assign members entry.1 entry.2 = members := if_pos hproto
        rw [hsame, ih hrest fun other ho => hapart other (List.mem_cons_of_mem _ ho)]
        simp [hproto]
      · have hnew : assign members entry.1 entry.2 = members ++ [(entry.1, entry.2)] :=
          (if_neg hproto).trans (withMember_of_notMem (hapart entry (by simp)))
        rw [hnew, ih hrest]
        · simp [hproto]
        · intro other ho hmem
          rw [List.map_append, List.mem_append] at hmem
          rcases hmem with hold | hnew
          · exact hapart other (List.mem_cons_of_mem _ ho) hold
          · simp only [List.map_cons, List.map_nil, List.mem_singleton] at hnew
            exact hfresh (hnew ▸ List.mem_map_of_mem ho)

end

section

variable {race : Nat → Race} {events : List Json} {sessionId : JsString}

theorem processRound_responses (hdistinct : (events.filterMap answerableAttempt).Nodup) :
    (processRound true race events).responses =
      (roundAnswers true race events).filter fun entry => entry.1 ≠ Zod.PROTO := by
  have hfold := @foldl_assign [] (roundAnswers true race events)
    (by rw [roundAnswers_ids]; exact hdistinct) (by simp)
  simpa [processRound] using hfold

theorem mem_responses (hdistinct : (events.filterMap answerableAttempt).Nodup) {entry : JsString × Json} :
    entry ∈ (processRound true race events).responses ↔
      entry ∈ roundAnswers true race events ∧ entry.1 ≠ Zod.PROTO := by
  rw [processRound_responses hdistinct, List.mem_filter, decide_eq_true_iff]

-- The reader takes the whole member, or none of it.
theorem auditMember_reads_iff (hsession : SESSION_ID_PATTERN.test sessionId.units = true) {responses : Members} :
    auditRequestMetaSchema (some (auditMember sessionId responses)) = none ↔
      ∀ entry ∈ responses, entry.1 ≠ Zod.PROTO →
        UUID_PATTERN.test entry.1.units = true ∧ attemptResponseSchema (some entry.2) = none := by
  have hkey (name : JsString) : Zod.regex UUID_PATTERN (some (.str name)) = none ↔ UUID_PATTERN.test name.units = true := by
    cases h : UUID_PATTERN.test name.units <;> simp [Zod.regex, h]
  have hrecord := @Zod.recordOf_eq_none (Zod.regex UUID_PATTERN) attemptResponseSchema responses
  simp only [hkey] at hrecord
  rw [← hrecord]
  have hsessionGet : Json.get (auditMember sessionId responses) Fields.SESSION_ID = some (.str sessionId) := rfl
  have hresponsesGet : Json.get (auditMember sessionId responses) Fields.RESPONSES = some (.obj responses) := rfl
  unfold auditRequestMetaSchema
  rw [auditMember, Zod.strictObject_none_iff, ← auditMember]
  simp only [List.forall_mem_cons, List.not_mem_nil, false_imp_iff, implies_true, and_true, hsessionGet, hresponsesGet]
  simp [Zod.regex, Zod.optional, hsession]

theorem lookup_of_mem {entries : Members} (hdistinct : (entries.map Prod.fst).Nodup) {entry : JsString × Json}
    (h : entry ∈ entries) : Json.lookup entries entry.1 = some entry.2 := by
  induction entries with
  | nil => cases h
  | cons first rest ih =>
      obtain ⟨name, value⟩ := first
      obtain ⟨hfresh, hrest⟩ := List.nodup_cons.mp hdistinct
      unfold Json.lookup
      rcases List.mem_cons.mp h with rfl | hmem
      · rw [if_pos rfl]
      · have hmapped : entry.1 ∈ rest.map Prod.fst := List.mem_map_of_mem hmem
        have hother : name ≠ entry.1 := by
          rintro rfl
          exact hfresh hmapped
        rw [if_neg hother, ih hrest hmem]

-- The member is read off the retry as it was written.
theorem metaOf_retryParams (params : Members) (state : JsString) (responses : Members) :
    Json.lookup (metaOf (some (.obj (retryParams params state sessionId responses)))) EXTENSION_ID =
      some (auditMember sessionId responses) := by
  have hmeta : Json.get (.obj (retryParams params state sessionId responses)) META =
      some (.obj (withMember (metaOf (some (.obj (withMember params REQUEST_STATE (.str state))))) EXTENSION_ID
        (auditMember sessionId responses))) := by
    show Json.lookup (retryParams params state sessionId responses) META = _
    unfold retryParams
    rw [lookup_withMember, if_pos rfl]
  unfold metaOf
  rw [Option.bind_some, hmeta]
  show Json.lookup (withMember _ EXTENSION_ID _) EXTENSION_ID = _
  rw [lookup_withMember, if_pos rfl]

end

-- One round of a call from end to end: what the host made of the events is what the tool
-- settles the attempts it still awaits with.
structure Round where
  params : Members
  state : JsString
  sessionId : JsString
  events : List Json
  race : Nat → Race
  awaiting : List (JsString × Pending)

namespace Round

variable (round : Round)

def answers : List (JsString × Json) := roundAnswers true round.race round.events

def retry : Json :=
  .obj (retryParams round.params round.state round.sessionId (processRound true round.race round.events).responses)

-- The audit member of the retry.
def carried : Option Json := Json.lookup (metaOf (some round.retry)) EXTENSION_ID

-- A round in a session the tool took from the call's opening request, whose attempts have
-- distinct ids and are those the tool waits for.
structure Sent : Prop where
  session : SESSION_ID_PATTERN.test round.sessionId.units = true
  distinct : (round.events.filterMap answerableAttempt).Nodup
  awaiting : ∀ entry ∈ round.awaiting, entry.1 ∈ round.events.filterMap answerableAttempt
  waitedOnce : (round.awaiting.map Prod.fst).Nodup
  answers : Answers round.race

-- The tool reads the retry, and settles every attempt it still awaits as the host answered it.
structure Delivered : Prop where
  reads : auditRequestMetaSchema round.carried = none
  named : (round.carried.bind fun member => member.get Fields.SESSION_ID) = some (.str round.sessionId)
  settled : ∀ id response, (id, response) ∈ round.answers → (id, none) ∈ round.awaiting →
    (id, some response) ∈ acceptRetry (some round.sessionId) round.retry round.awaiting

-- Every answer stands under a key the reader takes.
structure Keyed : Prop where
  uuid : ∀ id ∈ round.events.filterMap answerableAttempt, id ≠ Zod.PROTO → UUID_PATTERN.test id.units = true
  proto : ∀ response, (Zod.PROTO, response) ∈ round.answers → (Zod.PROTO, none) ∈ round.awaiting →
    response = unavailableResponse

theorem carried_eq : round.carried =
    some (auditMember round.sessionId (processRound true round.race round.events).responses) :=
  metaOf_retryParams round.params round.state _

variable {round}

theorem answers_distinct (hsent : round.Sent) : (round.answers.map Prod.fst).Nodup := by
  unfold answers
  rw [roundAnswers_ids]
  exact hsent.distinct

theorem reads_iff (hsent : round.Sent) : auditRequestMetaSchema round.carried = none ↔
    ∀ id ∈ round.events.filterMap answerableAttempt, id ≠ Zod.PROTO → UUID_PATTERN.test id.units = true := by
  rw [carried_eq, auditMember_reads_iff hsent.session]
  simp only [mem_responses hsent.distinct]
  constructor
  · intro h id hid hproto
    rw [← @roundAnswers_ids round.race] at hid
    obtain ⟨entry, hentry, rfl⟩ := List.mem_map.mp hid
    exact (h entry ⟨hentry, hproto⟩ hproto).1
  · intro h entry hentry hproto
    have hid : entry.1 ∈ round.events.filterMap answerableAttempt := by
      rw [← @roundAnswers_ids round.race]
      exact List.mem_map_of_mem hentry.1
    exact ⟨h entry.1 hid hproto, roundAnswers_valid hsent.answers true entry hentry.1⟩

-- Where the member reads, the tool finds the answers entered in it.
theorem retryAnswers_read (hsent : round.Sent) (h : auditRequestMetaSchema round.carried = none) :
    retryAnswers (some round.sessionId) round.carried = round.answers.filter fun entry => entry.1 ≠ Zod.PROTO := by
  have hresponses := @processRound_responses round.race _ hsent.distinct
  unfold retryAnswers
  rw [carried_eq] at h ⊢
  have hnamed : Json.isText ((some (auditMember round.sessionId
      (processRound true round.race round.events).responses)).bind fun value => value.get Fields.SESSION_ID)
      round.sessionId = true := by
    show Json.isText (some (.str round.sessionId)) round.sessionId = true
    simp [Json.isText]
  simp only [h, Option.any_some, hnamed, and_self, ite_true]
  show (processRound true round.race round.events).responses.filter _ = _
  rw [hresponses, List.filter_filter]
  simp [answers]

-- How an awaited attempt is settled by the retry.
theorem settled_iff (hsent : round.Sent) (h : auditRequestMetaSchema round.carried = none) {id : JsString}
    {response : Json} (hanswer : (id, response) ∈ round.answers) (hawaited : (id, none) ∈ round.awaiting) :
    (id, some response) ∈ acceptRetry (some round.sessionId) round.retry round.awaiting ↔
      (id = Zod.PROTO → response = unavailableResponse) := by
  have hread := retryAnswers_read hsent h
  have hfound : Json.lookup (round.answers.filter fun entry => entry.1 ≠ Zod.PROTO) id =
      if id = Zod.PROTO then none else some response := by
    by_cases hproto : id = Zod.PROTO
    · rw [if_pos hproto]
      apply lookup_eq_none
      intro hmem
      obtain ⟨entry, hentry, he⟩ := List.mem_map.mp hmem
      have hother : entry.1 ≠ Zod.PROTO := of_decide_eq_true (List.mem_filter.mp hentry).2
      exact hother (he.trans hproto)
    · rw [if_neg hproto]
      refine @lookup_of_mem (round.answers.filter fun entry => entry.1 ≠ Zod.PROTO)
        ((answers_distinct hsent).sublist (List.filter_sublist.map _)) (id, response) ?_
      exact List.mem_filter.mpr ⟨hanswer, decide_eq_true hproto⟩
  have hvalid : readResponse response = response := by
    unfold readResponse
    rw [if_pos (roundAnswers_valid hsent.answers true _ hanswer)]
  have hsettle (response : Json) : Pending.settle none response = some response := rfl
  unfold acceptRetry
  rw [show Json.lookup (metaOf (some round.retry)) EXTENSION_ID = round.carried from rfl, hread]
  simp only [List.mem_map, Prod.mk.injEq]
  constructor
  · rintro ⟨entry, hentry, rfl, hsettled⟩ hproto
    have hown : entry = (entry.1, none) := List.inj_on_of_nodup_map hsent.waitedOnce hentry hawaited rfl
    rw [hown, hsettle, hfound, if_pos hproto] at hsettled
    exact (Option.some.inj hsettled).symm
  · intro hproto
    refine ⟨(id, none), hawaited, rfl, ?_⟩
    rw [hsettle, hfound]
    by_cases he : id = Zod.PROTO
    · rw [if_pos he, hproto he]
    · rw [if_neg he]
      exact congrArg some hvalid

end Round

-- An invalid item is refused alone exactly where every answer stands under a key the
-- reader takes: it takes the member whole or not at all.
theorem refused_alone_iff (round : Round) (hsent : round.Sent) : round.Delivered ↔ round.Keyed := by
  constructor
  · rintro ⟨hreads, -, hsettled⟩
    refine ⟨(Round.reads_iff hsent).mp hreads, fun response hanswer hawaited => ?_⟩
    exact (Round.settled_iff hsent hreads hanswer hawaited).mp (hsettled _ response hanswer hawaited) rfl
  · rintro ⟨huuid, hproto⟩
    have hreads := (Round.reads_iff hsent).mpr huuid
    refine ⟨hreads, ?_, fun id response hanswer hawaited => ?_⟩
    · rw [Round.carried_eq]
      rfl
    · refine (Round.settled_iff hsent hreads hanswer hawaited).mpr ?_
      rintro rfl
      exact hproto response hanswer hawaited

section

open Reference

def rejectedResponse : Json := objectOf
  [(Fields.STATUS, some (.str Status.REJECT)), (Fields.REASON, some (.str Tier1Code.schemaInvalid.text))]

-- An attempt that is no valid event.
def bareAttempt (id : JsString) : Json := .obj [(Fields.OUTCOME, .str Outcome.ATTEMPTED), (Fields.ID, .str id)]

-- A round of a valid attempt, which the host accepts, and of an invalid one, which it refuses.
def mixedRound (id : JsString) : Round where
  params := []
  state := "round-1"
  sessionId := SESSION_A
  events := [toolEvent SESSION_A EVENT_1 Outcome.ATTEMPTED [], bareAttempt id]
  race := fun index => .settled (.ok (if index = 0 then acceptedResponse else rejectedResponse)) false
  awaiting := [(EVENT_1, none)]

theorem mixedRound_ids (id : JsString) : (mixedRound id).events.filterMap answerableAttempt = [EVENT_1, id] := by
  have hfirst : answerableAttempt (toolEvent SESSION_A EVENT_1 Outcome.ATTEMPTED []) = some EVENT_1 := by decide
  have hsecond : answerableAttempt (bareAttempt id) = some id := rfl
  show [_, _].filterMap answerableAttempt = _
  simp [hfirst, hsecond]

theorem mixedRound_sent {id : JsString} (h : EVENT_1 ≠ id) : (mixedRound id).Sent := by
  have hids := mixedRound_ids id
  have hsession : SESSION_ID_PATTERN.test SESSION_A.units = true := by decide +kernel
  refine ⟨hsession, ?_, ?_, by simp [mixedRound], ?_⟩
  · rw [hids]
    simpa using h
  · intro entry hentry
    rw [hids, List.mem_singleton.mp hentry]
    exact List.mem_cons_self
  · intro index response late hrace
    obtain rfl := Except.ok.inj (Race.settled.inj hrace).1
    by_cases hindex : index = 0
    · rw [if_pos hindex]
      decide +kernel
    · rw [if_neg hindex]
      decide +kernel

theorem mixedRound_delivered : (mixedRound EVENT_2).Delivered := by
  refine (refused_alone_iff (mixedRound EVENT_2) (mixedRound_sent (by decide))).mpr ⟨?_, ?_⟩
  · intro id hid _
    rw [mixedRound_ids] at hid
    rcases List.mem_pair.mp hid with rfl | rfl
    · decide +kernel
    · decide +kernel
  · intro response _ hawaited
    exact absurd (congrArg Prod.fst (List.mem_singleton.mp hawaited)) (by decide)

-- Under an id that is no UUID, the refused item takes its sibling's acceptance with it.
theorem mixedRound_refused_together : ¬∀ round : Round, round.Sent → round.Delivered := by
  intro h
  have hsent : (mixedRound "x").Sent := mixedRound_sent (by decide)
  have huuid := (Round.reads_iff hsent).mp (h (mixedRound "x") hsent).reads "x"
    (by rw [mixedRound_ids]; simp) (by decide)
  have hnot : UUID_PATTERN.test (JsString.ofString "x").units = false := by decide +kernel
  rw [hnot] at huuid
  cases huuid

end

end AuditableMcp.Mcp
