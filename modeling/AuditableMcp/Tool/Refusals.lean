import AuditableMcp.Reference.Sessions

-- What a refused operation leaves behind.
namespace AuditableMcp

open Program

-- A transport's answer to an attempt: a valid response, or a fault that is not misuse.
def ValidAnswer : Except JsError (Option Json) → Prop
  | .ok response => attemptResponseSchema response = none
  | .error fault => ∀ message, fault ≠ .usageError message

-- The verifier resolves to a verdict, each time it is asked.
def Resolves (trace : Trace) : Prop :=
  ∀ keyId signature payload e, (⟨.verify keyId signature payload, some (.error e)⟩ : Exchange SessionCall.Answer) ∉ trace

def JsError.abortReason : JsError → Option JsString
  | .abortedError _ _ reason => some reason
  | .abortedBy _ _ reason _ => some reason
  | _ => none

-- The outcome of an attempt is handed over as aborted, once, unless it could not be put together.
def LeavesAborted (session : AmcpSession) (trace : Trace) (attempt : Json) (reason : AbortReason) : Prop :=
  (∃ outcome, outcomes trace = [outcome] ∧ outcome.get Fields.ID = attempt.get Fields.ID ∧
    outcome.get Fields.OUTCOME = some (.str Outcome.ABORTED) ∧ outcome.get Fields.REASON = some (.str reason.text)) ∨
  outcomes trace = [] ∧ ∃ action : AuditedAction, attempt.get Fields.ID = some (.str action.id) ∧
    BuildFails session action Outcome.ABORTED (some reason.text) trace

-- The operation is refused for the reason of the precedence, and says so to the host and to the caller.
def RefusedCleanly (P : Primitives) (session : AmcpSession) (trace : Trace) (attempt : Json)
    (answer : Except JsError (Option Json)) (e : JsError) : Prop :=
  ∃ reason, refusal P session attempt answer (verdicts trace).head? = some reason ∧
    LeavesAborted session trace attempt reason ∧ e.abortReason = some reason.text

-- The texts the checks on an accept canonicalize have a canonical form: the ledger's name
-- where the countersignature is checked, the attempt where the hash is.
def Presentable (session : AmcpSession) (attempt response : Json) (verdict : Option Verdict) : Prop :=
  (Checked session response → ∀ logId, response.get Fields.LOG_ID = some (.str logId) → LONE_SURROGATE logId = false) ∧
  (countersignatureRefusal session response verdict = none → session.pollutedStop = true → Canonicalizable attempt)

section

variable {P : Primitives} {session : AmcpSession} {action : AuditedAction} {trace : Trace} {attempt response : Json}

theorem canonicalize_error {value : Json} {e : JsError} (h : canonicalize P value = .error e) : e.abortReason = none := by
  unfold canonicalize at h
  split at h
  · cases h
    rfl
  · split at h
    · cases h
      rfl
    · cases h

-- What is made of a canonical form, where there is one.
theorem canonicalized_isOk {α : Type} {value : Json} (f : JsString → α) :
    (∃ x, (do let canonical ← canonicalize P value; return f canonical : Except JsError α) = .ok x) ↔
      Canonicalizable value := by
  rw [← canonicalize_isOk P value]
  cases canonicalize P value with
  | ok text => exact ⟨fun _ => ⟨text, rfl⟩, fun _ => ⟨f text, rfl⟩⟩
  | error e =>
      refine ⟨?_, ?_⟩
      · rintro ⟨x, hx⟩
        cases hx
      · rintro ⟨text, htext⟩
        cases htext

theorem canonicalized_error {α : Type} {value : Json} {f : JsString → α} {e : JsError}
    (h : (do let canonical ← canonicalize P value; return f canonical : Except JsError α) = .error e) :
    e.abortReason = none := by
  cases hvalue : canonicalize P value with
  | ok text =>
      rw [hvalue] at h
      cases h
  | error other =>
      rw [hvalue] at h
      cases h
      exact canonicalize_error hvalue

-- A text that a pattern of ASCII classes admits has no lone surrogate.
theorem wellFormed_of_regex {pattern : Pattern UInt16} (hascii : Pattern.upTo 0x7F pattern = true) {value : Option Json}
    (h : Zod.regex pattern value = none) : ∃ text, value = some (.str text) ∧ Canonicalizable (.str text) := by
  obtain ⟨text, rfl, htest⟩ := Zod.regex_eq_none h
  refine ⟨text, rfl, canonicalizable_str (LONE_SURROGATE_ascii text fun c hc => ?_)⟩
  have hle : c ≤ 0x7F := Pattern.le_of_allows hascii (Pattern.allows_of_test _ _ htest c hc)
  have := UInt16.le_iff_toNat_le.mp hle
  simp at this
  omega

-- What a valid accept carries in the members its checks canonicalize.
structure AcceptTexts (response : Json) : Prop where
  seq : ∃ n : Nat, response.get Fields.SEQ = some (.num (.ofNat n)) ∧ Canonicalizable (.num (.ofNat n))
  recordHash : ∃ text, response.get Fields.RECORD_HASH = some (.str text) ∧ Canonicalizable (.str text)
  hostTs : ∃ text, response.get Fields.HOST_TS = some (.str text) ∧ Canonicalizable (.str text)
  previousHash : ∃ text, response.get Fields.PREVIOUS_HASH = some (.str text) ∧ Canonicalizable (.str text)
  logId : response.get Fields.LOG_ID = none ∨ ∃ text, response.get Fields.LOG_ID = some (.str text)

theorem chainHash_ascii : Pattern.upTo 0x7F CHAIN_HASH_PATTERN = true := by decide +kernel

theorem datetime_ascii : Pattern.upTo 0x7F DATETIME_PATTERN = true := by decide +kernel

theorem acceptTexts (hschema : attemptResponseSchema (some response) = none) (haccept : IsAccept response) :
    AcceptTexts response := by
  unfold attemptResponseSchema at hschema
  split at hschema
  · rename_i members hmembers
    obtain rfl := Option.some.inj hmembers
    simp only [show Json.isText (Json.get (.obj members) Fields.STATUS) Status.ACCEPT = true from haccept, if_true]
      at hschema
    obtain ⟨hobject, -⟩ := Zod.refine_eq_none.mp hschema
    obtain ⟨other, hother, hfields⟩ := Zod.strictObject_eq_none hobject
    obtain rfl := Json.obj.inj (Option.some.inj hother)
    have hseq := Zod.safeNat_eq_none (hfields ⟨Fields.SEQ, Zod.safeNat⟩ (by simp))
    have hrecordHash := hfields ⟨Fields.RECORD_HASH, Zod.regex CHAIN_HASH_PATTERN⟩ (by simp)
    have hhostTs := hfields ⟨Fields.HOST_TS, Zod.regex DATETIME_PATTERN⟩ (by simp)
    have hpreviousHash := hfields ⟨Fields.PREVIOUS_HASH, Zod.regex CHAIN_HASH_PATTERN⟩ (by simp)
    have hlogId := hfields ⟨Fields.LOG_ID, Zod.optional Zod.nonEmpty⟩ (by simp)
    obtain ⟨n, hn, hsafe⟩ := hseq
    refine ⟨⟨n, hn, canonicalizable_count hsafe⟩, wellFormed_of_regex chainHash_ascii hrecordHash,
      wellFormed_of_regex datetime_ascii hhostTs, wellFormed_of_regex chainHash_ascii hpreviousHash, ?_⟩
    rcases Zod.optional_eq_none hlogId with hnone | ⟨value, hvalue, htext⟩
    · exact Or.inl hnone
    · obtain ⟨text, hsome, -⟩ := Zod.nonEmpty_eq_none htext
      exact Or.inr ⟨text, hvalue.trans hsome⟩
  · cases hschema

theorem payloadOf_isOk (h : AcceptTexts response) :
    (∃ payload, payloadOf P response = .ok payload) ↔
      ∀ logId, response.get Fields.LOG_ID = some (.str logId) → LONE_SURROGATE logId = false := by
  have hcanonical := @canonicalized_isOk P _ (objectOf [("host_ts", response.get Fields.HOST_TS),
    ("log_id", response.get Fields.LOG_ID), ("previous_hash", response.get Fields.PREVIOUS_HASH),
    ("record_hash", response.get Fields.RECORD_HASH), ("seq", response.get Fields.SEQ)]) encodeUtf8
  refine hcanonical.trans ⟨fun hwhole logId hlogId => ?_, fun hlogId => objectOf_canonicalizable ?_⟩
  · have hmember : Canonicalizable (.str logId) := canonicalizable_of_objectOf hwhole
      (show ((JsString.ofString "log_id", some (Json.str logId)) : JsString × Option Json) ∈ _ by simp [hlogId])
    exact hmember.2
  · obtain ⟨n, hseq, hsafe⟩ := h.seq
    obtain ⟨recordHash, hrecordHash, hhash⟩ := h.recordHash
    obtain ⟨hostTs, hhostTs, hts⟩ := h.hostTs
    obtain ⟨previousHash, hpreviousHash, hprevious⟩ := h.previousHash
    simp only [List.forall_mem_cons, List.not_mem_nil, false_imp_iff, implies_true, and_true, hseq, hrecordHash, hhostTs,
      hpreviousHash, Option.some.injEq, forall_eq']
    refine ⟨⟨by decide, hts⟩, ⟨by decide, fun value hvalue => ?_⟩, ⟨by decide, hprevious⟩, ⟨by decide, hhash⟩,
      by decide, hsafe⟩
    rcases h.logId with hnone | ⟨logId, hsome⟩
    · rw [hnone] at hvalue
      cases hvalue
    · rw [hsome] at hvalue
      obtain rfl := Option.some.inj hvalue
      exact canonicalizable_str (hlogId logId hsome)

theorem expectedHash_isOk (h : AcceptTexts response) :
    (∃ expected, expectedHash P attempt response = .ok expected) ↔ Canonicalizable attempt := by
  have hcanonical := @canonicalized_isOk P _ (recordPreimage (some attempt) (response.get Fields.SEQ)
    (response.get Fields.HOST_TS) (response.get Fields.PREVIOUS_HASH)) (sha256Hex P)
  refine hcanonical.trans ⟨fun hwhole => ?_, fun hattempt => objectOf_canonicalizable ?_⟩
  · exact canonicalizable_of_objectOf hwhole (List.mem_cons_self ..)
  · obtain ⟨n, hseq, hsafe⟩ := h.seq
    obtain ⟨hostTs, hhostTs, hts⟩ := h.hostTs
    obtain ⟨previousHash, hpreviousHash, hprevious⟩ := h.previousHash
    simp only [List.forall_mem_cons, List.not_mem_nil, false_imp_iff, implies_true, and_true, hseq, hhostTs,
      hpreviousHash, Option.some.injEq, forall_eq']
    exact ⟨⟨by decide, hattempt⟩, ⟨by decide, hts⟩, ⟨by decide, hprevious⟩, by decide, hsafe⟩

theorem computes_iff {verdict : Option Verdict} (h : AcceptTexts response) :
    Computes P session attempt response verdict ↔ Presentable session attempt response verdict := by
  constructor
  · rintro ⟨hpayload, hhash⟩
    exact ⟨fun hchecked => (payloadOf_isOk h).mp (hpayload hchecked), fun hnone hstop =>
      (expectedHash_isOk h).mp (hhash hnone hstop)⟩
  · rintro ⟨hlogId, hattempt⟩
    exact ⟨fun hchecked => (payloadOf_isOk h).mpr (hlogId hchecked), fun hnone hstop =>
      (expectedHash_isOk h).mpr (hattempt hnone hstop)⟩

theorem leavesAborted_of_emits {reason : AbortReason} {before emission : Trace} {settled : Except JsError Unit}
    (hbuilt : Built action Outcome.ATTEMPTED none attempt) (hbefore : outcomes before = [])
    (h : Emits session action Outcome.ABORTED (some reason.text) emission (some settled)) :
    LeavesAborted session (before ++ emission) attempt reason := by
  unfold LeavesAborted
  rw [outcomes_append, hbefore, List.nil_append]
  rcases h.outcomes with ⟨hnone, hcontra | ⟨signerSeq, steps, e, hbuild, hsub⟩⟩ | ⟨outcome, houtcome, hid⟩
  · cases hcontra
  · exact Or.inr ⟨hnone, action, hbuilt.id, signerSeq, steps, e, hbuild, fun exchange he =>
      List.mem_append_right _ (hsub exchange he)⟩
  · exact Or.inl ⟨outcome, houtcome, hid.id.trans hbuilt.id.symm, hid.outcome, hid.reason⟩

end

section

open Reference

-- The query as it is attempted, and what acquiring it comes to under one response.
def queryAttempt : Json :=
  objectOf
    [(Fields.ID, some (.str EVENT_1)), (Fields.SPEC_VERSION, some (.str SPEC_VERSION)), (Fields.TS, some (.str MORNING)),
     (Fields.SESSION_ID, some (.str SESSION_A)), (Fields.ACTION_TYPE, some (.str "db.query")),
     (Fields.MUTATES, some (.bool false)), (Fields.EGRESS, some (.bool false)),
     (Fields.TARGET_RESOURCE, some (objectOf [(Fields.KIND, some (.str "table")), (Fields.REF, some (.str "orders"))])),
     (Fields.OUTCOME, some (.str Outcome.ATTEMPTED))]

def acquiring (response : Json) : Trace × Except JsError AuditedAction :=
  (AmcpSession.action primitives checkingSession querySpec).runWith (worldOf response ⟨[], .ok .null⟩)

def rejection : Json := objectOf [(Fields.STATUS, some (.str Status.REJECT)), (Fields.REASON, some (.str "schema-invalid"))]

-- An accept whose ledger's name has no canonical form.
def unpresentableAccept : Json :=
  objectOf
    [(Fields.STATUS, some (.str Status.ACCEPT)), (Fields.SEQ, some (.num (.ofNat 0))),
     (Fields.RECORD_HASH, some (.str GENESIS_HASH)), (Fields.HOST_TS, some (.str NOON)),
     (Fields.PREVIOUS_HASH, some (.str GENESIS_HASH)), (Fields.HOST_SIGNATURE, some (.str "c2lnbmVk")),
     (Fields.HOST_KEY_ID, some (.str "host-1")), (Fields.LOG_ID, some (.str ⟨[0xD800]⟩))]

end

end AuditableMcp
