import Mathlib.Order.Lattice.Nat
import AuditableMcp.Library.Greedy
import AuditableMcp.Reference.Events
import AuditableMcp.Verify.Gaps

-- The accounting of signer sequence numbers as §11.4 pins it, on sets of numbers, and the
-- code's intervals against it.
namespace AuditableMcp

-- The number of an event under one key and session.
def numberUnder (keyId sessionId : JsString) (event : Json) : Option Nat :=
  if Json.isText (event.get Fields.KEY_ID) keyId && Json.isText (event.get Fields.SESSION_ID) sessionId then
    match event.get Fields.SIGNER_SEQ with
    | some (.num (.fin value)) => some value.num.toNat
    | _ => none
  else none

def signerOf (event : Json) : Option (JsString × JsString) :=
  match event.get Fields.KEY_ID, event.get Fields.SESSION_ID, event.get Fields.SIGNER_SEQ with
  | some (.str keyId), some (.str sessionId), some _ => some (keyId, sessionId)
  | _, _, _ => none

-- Every key and session, in order of first appearance.
def appearances (events : List Json) : List (JsString × JsString) := (events.filterMap signerOf).foldl addTo []

-- Step 1: the values below the largest sealed one that are not sealed.
def sealedNumbers (events : List Json) (keyId sessionId : JsString) : Finset Nat :=
  (events.filterMap (numberUnder keyId sessionId)).toFinset

def missingNumbers (events : List Json) (keyId sessionId : JsString) : Finset Nat :=
  (Finset.range ((sealedNumbers events keyId sessionId).sup id)).filter (· ∉ sealedNumbers events keyId sessionId)

-- Step 2: the aborted outcomes of a host's refusal that no earlier attempt of the operation goes with.
def isAttemptOf (event attempt : Json) : Bool :=
  isAttempted attempt && Json.strictEq (attempt.get Fields.SESSION_ID) (event.get Fields.SESSION_ID) &&
    Json.strictEq (attempt.get Fields.ID) (event.get Fields.ID)

def refusesUnsealed (before : List Json) (event : Json) : Bool :=
  Json.isText (event.get Fields.OUTCOME) Outcome.ABORTED &&
    (Json.isText (event.get Fields.REASON) "host-rejected" || Json.isText (event.get Fields.REASON) "host-unavailable") &&
    !before.any (isAttemptOf event)

def refusalNumbers (keyId sessionId : JsString) (before : List Json) : List Json → List Nat
  | [] => []
  | event :: rest =>
      (if refusesUnsealed before event then (numberUnder keyId sessionId event).toList else []) ++
        refusalNumbers keyId sessionId (before ++ [event]) rest

def refusalsIn (events : List Json) (keyId sessionId : JsString) : List Nat :=
  (refusalNumbers keyId sessionId [] events).insertionSort (· ≤ ·)

-- Step 3: in ascending order, each refusal takes the smallest missing value below its own not yet taken.
def leftNumbers (events : List Json) (keyId sessionId : JsString) : Finset Nat :=
  Greedy.leftOver (missingNumbers events keyId sessionId) (refusalsIn events keyId sessionId)

-- Step 4: the maximal runs of a set, ascending.
structure MaximalRuns (runs : List (Nat × Nat)) (left : Finset Nat) : Prop where
  filled : Filled runs
  apart : runs.Pairwise fun a b => a.2 + 1 < b.1
  covers : ∀ v, Covers runs v ↔ v ∈ left

section Runs

variable {runs : List (Nat × Nat)} {left : Finset Nat}

theorem runsFrom_apart (values : List Nat) (next : Nat) (hsorted : values.Pairwise (· < ·)) (hnext : ∀ n ∈ values, next ≤ n) :
    ((runsFrom next values).Pairwise fun a b => a.2 + 1 < b.1) ∧ ∀ run ∈ runsFrom next values, next ≤ run.1 := by
  induction values generalizing next with
  | nil => simp [runsFrom]
  | cons value rest ih =>
      obtain ⟨habove, hrest⟩ := List.pairwise_cons.mp hsorted
      have hvalue : next ≤ value := hnext value (List.mem_cons_self ..)
      obtain ⟨hapart, hfrom⟩ := ih (value + 1) hrest habove
      unfold runsFrom
      by_cases hgap : next < value
      · rw [if_pos hgap, List.pairwise_cons, List.forall_mem_cons]
        refine ⟨⟨fun run hrun => ?_, hapart⟩, le_refl next, fun run hrun => ?_⟩
        · have := hfrom run hrun
          show value - 1 + 1 < run.1
          omega
        · have := hfrom run hrun
          omega
      · rw [if_neg hgap]
        refine ⟨hapart, fun run hrun => ?_⟩
        have := hfrom run hrun
        omega

theorem missingRuns_apart (present : List Nat) : (missingRuns present).Pairwise fun a b => a.2 + 1 < b.1 := by
  have hnodup : ((present.dedup).insertionSort (· ≤ ·)).Nodup :=
    (List.perm_insertionSort _ _).nodup_iff.mpr (List.nodup_dedup present)
  have hsorted : ((present.dedup).insertionSort (· ≤ ·)).Pairwise (· < ·) :=
    (((List.pairwise_insertionSort (· ≤ ·) present.dedup).and hnodup)).imp fun h => lt_of_le_of_ne h.1 h.2
  exact (runsFrom_apart _ 0 hsorted fun n _ => Nat.zero_le n).1

-- The first number of the first run is the least of all.
theorem MaximalRuns.least {first last : Nat} {rest : List (Nat × Nat)} (h : MaximalRuns ((first, last) :: rest) left) :
    first ∈ left ∧ ∀ w ∈ left, first ≤ w := by
  obtain ⟨hfilled, hrest⟩ := (filled_cons _ _).mp h.filled
  obtain ⟨hfirst, -⟩ := List.pairwise_cons.mp h.apart
  refine ⟨(h.covers first).mp ((covers_cons _ _ first).mpr (Or.inl ⟨le_refl first, hfilled⟩)), fun w hw => ?_⟩
  rcases (covers_cons _ _ w).mp ((h.covers w).mpr hw) with ⟨hlow, -⟩ | ⟨run, hrun, hlow, -⟩
  · exact hlow
  · have hapart : last + 1 < run.1 := hfirst run hrun
    have hlast : first ≤ last := hfilled
    omega

-- A refusal takes the least number from the runs as it does from the set.
theorem accountFor_runs (h : MaximalRuns runs left) (refusal : Nat) :
    MaximalRuns (accountFor runs refusal) (Greedy.take left refusal) := by
  cases runs with
  | nil =>
      have hempty : ∀ w ∈ left, refusal ≤ w := by
        intro w hw
        obtain ⟨run, hrun, -⟩ := (h.covers w).mpr hw
        cases hrun
      rw [Greedy.take_of_le hempty]
      exact h
  | cons run rest =>
      obtain ⟨first, last⟩ := run
      obtain ⟨hmem, hleast⟩ := h.least
      obtain ⟨hfilled, hrest⟩ := (filled_cons _ _).mp h.filled
      have hfilled : first ≤ last := hfilled
      obtain ⟨hfirst, happart⟩ := List.pairwise_cons.mp h.apart
      have hbeyond : ∀ v, Covers rest v → last + 1 < v := by
        rintro v ⟨run, hrun, hlow, -⟩
        have hapart : last + 1 < run.1 := hfirst run hrun
        omega
      unfold accountFor
      dsimp only
      by_cases hrefusal : refusal ≤ first
      · rw [if_pos hrefusal, Greedy.take_of_le fun w hw => hrefusal.trans (hleast w hw)]
        exact h
      · rw [if_neg hrefusal, Greedy.take_of_least hmem (not_le.mp hrefusal) hleast]
        have hcovers : ∀ v, v ∈ left ↔ (first ≤ v ∧ v ≤ last) ∨ Covers rest v := fun v =>
          (h.covers v).symm.trans (covers_cons _ _ v)
        by_cases hlast : last < first + 1
        · rw [if_pos hlast]
          refine ⟨hrest, happart, fun v => ?_⟩
          rw [Finset.mem_erase, hcovers]
          constructor
          · intro hv
            have := hbeyond v hv
            exact ⟨by omega, Or.inr hv⟩
          · rintro ⟨hne, ⟨hlow, hhigh⟩ | hv⟩
            · omega
            · exact hv
        · rw [if_neg hlast]
          refine ⟨(filled_cons _ _).mpr ⟨by show first + 1 ≤ last; omega, hrest⟩,
            List.pairwise_cons.mpr ⟨hfirst, happart⟩, fun v => ?_⟩
          rw [Finset.mem_erase, hcovers, covers_cons]
          constructor
          · rintro (⟨hlow, hhigh⟩ | hv)
            · have hlow : first + 1 ≤ v := hlow
              exact ⟨by omega, Or.inl ⟨by omega, hhigh⟩⟩
            · have := hbeyond v hv
              exact ⟨by omega, Or.inr hv⟩
          · rintro ⟨hne, ⟨hlow, hhigh⟩ | hv⟩
            · exact Or.inl ⟨by show first + 1 ≤ v; omega, hhigh⟩
            · exact Or.inr hv

theorem accounted_runs (refusals : List Nat) (h : MaximalRuns runs left) :
    MaximalRuns (refusals.foldl accountFor runs) (Greedy.leftOver left refusals) := by
  induction refusals generalizing runs left with
  | nil => exact h
  | cons refusal rest ih => exact ih (accountFor_runs h refusal)

end Runs

-- What the accounting reads of an event that is valid under the current schema.
structure Countable (event : Json) : Prop where
  isObject : event.isObject = true
  sessionScoped : isSessionScoped event = true
  session : ∃ s, event.get Fields.SESSION_ID = some (.str s)
  id : ∃ s, event.get Fields.ID = some (.str s)
  reason : event.get Fields.REASON = none ∨ ∃ s, event.get Fields.REASON = some (.str s)
  signerSeq : event.get Fields.SIGNER_SEQ = none ∨
    ∃ n : Nat, event.get Fields.SIGNER_SEQ = some (.num (.ofNat n)) ∧ (n : ℚ) ≤ MAX_SAFE_INTEGER
  keyId : event.get Fields.KEY_ID = none ∨ ∃ s, event.get Fields.KEY_ID = some (.str s)

theorem countable_of_schema {event : Json} (h : auditEventSchema (some event) = none) : Countable event := by
  obtain ⟨hinner, -⟩ := Zod.refine_eq_none.mp h
  obtain ⟨hobject, -⟩ := Zod.refine_eq_none.mp hinner
  obtain ⟨members, hmembers, hfields⟩ := Zod.strictObject_eq_none hobject
  obtain rfl : event = .obj members := Option.some.inj hmembers
  obtain ⟨version, hversion, hcurrent⟩ := Zod.oneOf_eq_none
    (hfields ⟨Fields.SPEC_VERSION, Zod.oneOf [SPEC_VERSION]⟩ (by simp [currentEventFields]))
  obtain ⟨session, hsession, -⟩ := Zod.regex_eq_none
    (hfields ⟨Fields.SESSION_ID, Zod.regex SESSION_ID_PATTERN⟩ (by simp [currentEventFields]))
  obtain ⟨id, hid, -⟩ := Zod.regex_eq_none
    (hfields ⟨Fields.ID, Zod.regex UUID_PATTERN⟩ (by simp [currentEventFields, auditEventFields]))
  have hscoped : isSessionScoped (.obj members) = true := by
    unfold isSessionScoped
    rw [hversion, List.mem_singleton.mp hcurrent]
    decide
  exact
    { isObject := rfl
      sessionScoped := hscoped
      session := ⟨session, hsession⟩
      id := ⟨id, hid⟩
      reason := reason_of_optional
        (hfields ⟨Fields.REASON, Zod.optional abortReasonSchema⟩ (by simp [currentEventFields, auditEventFields]))
      signerSeq := signerSeq_of_optional
        (hfields ⟨Fields.SIGNER_SEQ, Zod.optional Zod.safeNat⟩ (by simp [currentEventFields, auditEventFields]))
      keyId := keyId_of_optional
        (hfields ⟨Fields.KEY_ID, Zod.optional Zod.nonEmpty⟩ (by simp [currentEventFields, auditEventFields])) }

section Groups

variable {P : Primitives} {event : Json} {events done : List Json} {keyId sessionId : JsString}

-- An event is numbered under one key and session, or it is not numbered at all.
theorem countable_cases (h : Countable event) :
    (accountedNumber event = none ∧ signerOf event = none ∧ ∀ keyId sessionId, numberUnder keyId sessionId event = none) ∨
      ∃ key session n, accountedNumber event = some (key, session, n) ∧ signerOf event = some (key, session) ∧
        ∀ keyId sessionId, numberUnder keyId sessionId event = if key = keyId ∧ session = sessionId then some n else none := by
  obtain ⟨session, hsession⟩ := h.session
  unfold accountedNumber signerOf numberUnder
  rcases h.keyId with hkey | ⟨key, hkey⟩
  · exact Or.inl (by simp [hkey, Json.isText])
  · rcases h.signerSeq with hseq | ⟨n, hseq, hsafe⟩
    · exact Or.inl (by simp [hkey, hseq])
    · right
      have hn : safeNatural (.fin (n : ℚ)) = some n := safeNatural_ofNat hsafe
      refine ⟨key, session, n, by simp [hkey, hsession, hseq, JsNum.ofNat, hn], by simp [hkey, hsession, hseq], fun keyId sessionId => ?_⟩
      by_cases hmine : key = keyId ∧ session = sessionId
      · simp [hkey, hsession, hseq, Json.isText, JsNum.ofNat, hmine]
      · have hnot : (decide (key = keyId) && decide (session = sessionId)) = false := by simpa using hmine
        simp [hkey, hsession, Json.isText, hnot, hmine]

theorem numberIn_eq (h : Countable event) : numberIn keyId sessionId event = numberUnder keyId sessionId event := by
  unfold numberIn
  rcases countable_cases h with ⟨hnumber, -, hunder⟩ | ⟨key, session, n, hnumber, -, hunder⟩
  · rw [hnumber, hunder]
    rfl
  · rw [hnumber, hunder]
    rfl

theorem refusalNumbers_append (before : List Json) :
    refusalNumbers keyId sessionId before (done ++ [event]) = refusalNumbers keyId sessionId before done ++
      if refusesUnsealed (before ++ done) event then (numberUnder keyId sessionId event).toList else [] := by
  induction done generalizing before with
  | nil => simp [refusalNumbers]
  | cons first rest ih =>
      rw [List.cons_append, refusalNumbers, ih, refusalNumbers, List.append_assoc, List.append_assoc]
      simp

def Accounting.refusalsOf (accounting : Accounting) (keyId sessionId : JsString) : List Nat :=
  ((accounting.groups.get (keyId, sessionId)).map SignerGroup.refusals).getD []

-- What the accounting holds after some events.
structure Accounts (done : List Json) (accounting : Accounting) : Prop where
  grouped : Grouped accounting
  keys : accounting.groups.keys = appearances done
  values : ∀ keyId sessionId, accounting.valuesOf keyId sessionId = done.filterMap (numberUnder keyId sessionId)
  refusals : ∀ keyId sessionId, accounting.refusalsOf keyId sessionId = refusalNumbers keyId sessionId [] done
  attempts : ∀ sessionId id, OperationKey.session "string" sessionId "string" id ∈ accounting.sealedAttempts ↔
    ∃ attempt ∈ done, isAttempted attempt = true ∧ attempt.get Fields.SESSION_ID = some (.str sessionId) ∧
      attempt.get Fields.ID = some (.str id)

theorem isAttemptOf_iff {sessionId id : JsString} {attempt : Json} (hsession : event.get Fields.SESSION_ID = some (.str sessionId))
    (hid : event.get Fields.ID = some (.str id)) (h : Countable attempt) :
    isAttemptOf event attempt = true ↔ isAttempted attempt = true ∧ attempt.get Fields.SESSION_ID = some (.str sessionId) ∧
      attempt.get Fields.ID = some (.str id) := by
  obtain ⟨otherSession, hotherSession⟩ := h.session
  obtain ⟨otherId, hotherId⟩ := h.id
  unfold isAttemptOf
  rw [hsession, hid, hotherSession, hotherId]
  simp [Json.strictEq, and_assoc]

theorem isUncorrelatedRefusal_eq {accounting : Accounting} {sessionId id : JsString} (hall : ∀ attempt ∈ done, Countable attempt)
    (haccounts : Accounts done accounting) (h : Countable event) (hsession : event.get Fields.SESSION_ID = some (.str sessionId))
    (hid : event.get Fields.ID = some (.str id)) :
    isUncorrelatedRefusal P accounting.sealedAttempts (.session "string" sessionId "string" id) event =
      .ok (refusesUnsealed done event) := by
  have hsealed : OperationKey.session "string" sessionId "string" id ∈ accounting.sealedAttempts ↔
      done.any (isAttemptOf event) = true := by
    rw [haccounts.attempts, List.any_eq_true]
    exact exists_congr fun attempt => and_congr_right fun hmem => (isAttemptOf_iff hsession hid (hall attempt hmem)).symm
  unfold isUncorrelatedRefusal refusesUnsealed
  by_cases haborted : Json.isText (event.get Fields.OUTCOME) Outcome.ABORTED = true
  · rw [if_pos haborted, haborted]
    have hreason : ∃ text, stringOfOption P (event.get Fields.REASON) = .ok text ∧
        (text ∈ REFUSAL_REASONS ↔ (Json.isText (event.get Fields.REASON) "host-rejected" ||
          Json.isText (event.get Fields.REASON) "host-unavailable") = true) := by
      rcases h.reason with hnone | ⟨text, htext⟩
      · rw [hnone]
        exact ⟨"undefined", rfl, by decide⟩
      · rw [htext]
        refine ⟨text, rfl, ?_⟩
        simp [REFUSAL_REASONS, AbortReason.text, AbortReason.code, Tier1Code.text, Json.isText]
    obtain ⟨text, hread, hnamed⟩ := hreason
    simp only [hread, bind, Except.bind, pure, Except.pure, Bool.true_and]
    congr 1
    rw [Bool.eq_iff_iff, Bool.and_eq_true, Bool.and_eq_true, decide_eq_true_iff, hnamed, decide_eq_true_iff, hsealed]
    simp
  · rw [if_neg haborted]
    simp [haborted]

theorem accounts_step {accounting : Accounting} (hall : ∀ attempt ∈ done, Countable attempt)
    (haccounts : Accounts done accounting) (h : Countable event) :
    ∃ next, accountEvent P accounting event = .ok next ∧ Accounts (done ++ [event]) next := by
  obtain ⟨session, hsession⟩ := h.session
  obtain ⟨id, hid⟩ := h.id
  have hoperation : operationKey P (event.get Fields.SESSION_ID) (event.get Fields.ID) =
      .ok (.session "string" session "string" id) := by
    rw [hsession, hid]
    rfl
  have hrefusal := isUncorrelatedRefusal_eq (P := P) hall haccounts h hsession hid
  obtain ⟨next, hnext⟩ : ∃ next, accountEvent P accounting event = .ok next := by
    unfold accountEvent
    simp only [hoperation, hrefusal, bind, Except.bind]
    split
    · exact ⟨_, rfl⟩
    · exact ⟨_, rfl⟩
  refine ⟨next, hnext, accountEvent_grouped haccounts.grouped hnext, ?_, fun keyId sessionId => ?_, fun keyId sessionId => ?_,
    fun otherSession otherId => ?_⟩
  · unfold appearances
    rw [List.filterMap_append, List.foldl_append, ← appearances, ← haccounts.keys]
    unfold accountEvent at hnext
    simp only [hoperation, hrefusal, bind, Except.bind] at hnext
    rcases countable_cases h with ⟨hnumber, hsigner, -⟩ | ⟨key, session, n, hnumber, hsigner, -⟩
    · rw [hnumber] at hnext
      obtain rfl := pure_ok hnext
      simp [hsigner]
    · rw [hnumber] at hnext
      obtain rfl := pure_ok hnext
      simp only [List.filterMap_cons, hsigner, List.filterMap_nil, List.foldl_cons, List.foldl_nil]
      exact OrderedMap.keys_insert _ _ _
  · rw [accountEvent_values hnext, haccounts.values, numberIn_eq h, List.filterMap_append]
    cases hn : numberUnder keyId sessionId event <;> simp [hn]
  · rw [refusalNumbers_append, ← haccounts.refusals, List.nil_append]
    unfold accountEvent at hnext
    simp only [hoperation, hrefusal, bind, Except.bind] at hnext
    rcases countable_cases h with ⟨hnumber, -, hunder⟩ | ⟨key, session, n, hnumber, -, hunder⟩
    · rw [hnumber] at hnext
      obtain rfl := pure_ok hnext
      simp [Accounting.refusalsOf, hunder]
    · rw [hnumber] at hnext
      obtain rfl := pure_ok hnext
      rw [hunder]
      by_cases hmine : key = keyId ∧ session = sessionId
      · obtain ⟨rfl, rfl⟩ := hmine
        cases hget : accounting.groups.get (key, session) <;> cases refusesUnsealed done event <;>
          simp [Accounting.refusalsOf, SignerGroup.add, hget]
      · have hne : ¬(key, session) = (keyId, sessionId) := by simpa using hmine
        simp [Accounting.refusalsOf, OrderedMap.get_set, hne, hmine]
  · have hsealed : next.sealedAttempts = if isAttempted event then
        addTo accounting.sealedAttempts (.session "string" session "string" id) else accounting.sealedAttempts := by
      unfold accountEvent at hnext
      simp only [hoperation, hrefusal, bind, Except.bind] at hnext
      cases hnumber : accountedNumber event with
      | none =>
          rw [hnumber] at hnext
          obtain rfl := pure_ok hnext
          rfl
      | some number =>
          rw [hnumber] at hnext
          obtain rfl := pure_ok hnext
          rfl
    rw [hsealed]
    simp only [List.mem_append, List.mem_singleton, or_and_right, exists_or, exists_eq_left, ← haccounts.attempts, hsession, hid]
    cases isAttempted event with
    | true => simp [eq_comm]
    | false => simp

theorem accounts_of_events (hall : ∀ event ∈ events, Countable event) :
    ∃ accounting, events.foldlM (accountEvent P) ⟨[], .empty⟩ = .ok accounting ∧ Accounts events accounting := by
  induction events using List.reverseRecOn with
  | nil =>
      refine ⟨⟨[], .empty⟩, rfl, ⟨by simp [OrderedMap.keys, OrderedMap.empty], fun _ _ hget => by simp at hget⟩, rfl,
        fun _ _ => rfl, fun _ _ => rfl, by simp⟩
  | append_singleton done event ih =>
      have hdone : ∀ attempt ∈ done, Countable attempt := fun attempt hmem => hall attempt (List.mem_append_left _ hmem)
      obtain ⟨accounting, hfold, haccounts⟩ := ih hdone
      obtain ⟨next, hnext, hlater⟩ := accounts_step (P := P) hdone haccounts (hall event (by simp))
      refine ⟨next, ?_, hlater⟩
      rw [List.foldlM_append, hfold]
      show (List.foldlM (accountEvent P) accounting [event]) = _
      rw [List.foldlM_cons, hnext]
      rfl

theorem listedEvents_countable (hall : ∀ event ∈ events, Countable event) : listedEvents (events.map some) = events := by
  unfold listedEvents
  rw [List.filterMap_map]
  refine (List.filterMap_congr (g := some) fun event hmem => ?_).trans (List.filterMap_some ..)
  have h := hall event hmem
  simp [innerObject, Option.filter, h.isObject, h.sessionScoped]

end Groups

theorem mem_missingNumbers {events : List Json} {keyId sessionId : JsString} {v : Nat} :
    v ∈ missingNumbers events keyId sessionId ↔
      v ∉ events.filterMap (numberUnder keyId sessionId) ∧ ∃ n ∈ events.filterMap (numberUnder keyId sessionId), v < n := by
  unfold missingNumbers sealedNumbers
  rw [Finset.mem_filter, Finset.mem_range, Finset.lt_sup_iff]
  simp only [List.mem_toFinset, id]
  exact and_comm

-- Over events that are valid under the current schema the accounting is the pinned
-- procedure, and no assignment of the refusals leaves fewer numbers.
theorem accounting_pinned (P : Primitives) (events : List Json) (hvalid : ∀ event ∈ events, auditEventSchema (some event) = none) :
    ∃ runs : JsString → JsString → List (Nat × Nat),
      unaccountedSignerSeq P (events.map some) = .ok ((appearances events).flatMap fun key =>
        (runs key.1 key.2).map fun run => ⟨key.1, key.2, run.1, run.2⟩) ∧
      ∀ keyId sessionId, MaximalRuns (runs keyId sessionId) (leftNumbers events keyId sessionId) ∧
        IsLeast {k | ∃ given, Greedy.Assigns (missingNumbers events keyId sessionId) (refusalsIn events keyId sessionId) given ∧
          (Greedy.unassigned (missingNumbers events keyId sessionId) given).card = k} (leftNumbers events keyId sessionId).card := by
  have hall : ∀ event ∈ events, Countable event := fun event hmem => countable_of_schema (hvalid event hmem)
  obtain ⟨accounting, hfold, haccounts⟩ := accounts_of_events (P := P) hall
  refine ⟨fun keyId sessionId => (refusalsIn events keyId sessionId).foldl accountFor
    (missingRuns (events.filterMap (numberUnder keyId sessionId))), ?_, fun keyId sessionId => ⟨?_, ?_⟩⟩
  · unfold unaccountedSignerSeq signerGroups
    rw [listedEvents_countable hall, hfold]
    show Except.ok _ = _
    congr 1
    rw [← haccounts.keys, OrderedMap.keys, List.flatMap_map]
    refine List.flatMap_congr fun entry hentry => ?_
    obtain ⟨key, group⟩ := entry
    have hget := (OrderedMap.mem_entries_iff haccounts.grouped.nodup key group).mp hentry
    have hown := haccounts.grouped.own key group hget
    obtain rfl := hown
    have hvalues := haccounts.values group.keyId group.sessionId
    have hrefusals := haccounts.refusals group.keyId group.sessionId
    rw [Accounting.valuesOf, hget, Option.map_some, Option.getD_some] at hvalues
    rw [Accounting.refusalsOf, hget, Option.map_some, Option.getD_some] at hrefusals
    show group.unaccounted = _
    unfold SignerGroup.unaccounted refusalsIn
    rw [hvalues, hrefusals]
  · apply accounted_runs
    refine ⟨runsFrom_filled _ 0, missingRuns_apart _, fun v => ?_⟩
    rw [missingRuns_covers, mem_missingNumbers]
  · exact Greedy.leftOver_isLeast _ (List.pairwise_insertionSort (· ≤ ·) _)

section

open Reference

-- The aborted outcome of a refused attempt, under number 1.
def refusedOperation : List Json :=
  [toolEvent SESSION_A EVENT_1 Outcome.ABORTED ((Fields.REASON, .str "host-rejected") :: signedUnder "tool-1" 1 "c2lnbmVk")]

theorem refusedOperation_accounted : ∃ runs : JsString → JsString → List (Nat × Nat),
    unaccountedSignerSeq primitives (refusedOperation.map some) = .ok ((appearances refusedOperation).flatMap fun key =>
      (runs key.1 key.2).map fun run => ⟨key.1, key.2, run.1, run.2⟩) ∧
    ∀ keyId sessionId, MaximalRuns (runs keyId sessionId) (leftNumbers refusedOperation keyId sessionId) ∧
      IsLeast {k | ∃ given, Greedy.Assigns (missingNumbers refusedOperation keyId sessionId)
          (refusalsIn refusedOperation keyId sessionId) given ∧
        (Greedy.unassigned (missingNumbers refusedOperation keyId sessionId) given).card = k}
        (leftNumbers refusedOperation keyId sessionId).card := by
  refine accounting_pinned primitives refusedOperation ?_
  rw [refusedOperation, List.forall_mem_singleton]
  decide +kernel

end

end AuditableMcp
