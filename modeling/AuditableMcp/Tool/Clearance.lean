import AuditableMcp.Tool.Emission

-- When an operation is cleared to run: the host's accept, its countersignature, its hash.
namespace AuditableMcp

open Program

-- The host's accept is checked against its countersignature.
def Checked (session : AmcpSession) (response : Json) : Prop :=
  (response.get Fields.HOST_SIGNATURE).isSome = true ∧ session.countersignatureVerifier = true

def payloadOf (P : Primitives) (response : Json) : Except JsError (List UInt8) :=
  countersignaturePayload P (response.get Fields.SEQ) (response.get Fields.HOST_TS) (response.get Fields.LOG_ID)
    (response.get Fields.PREVIOUS_HASH) (response.get Fields.RECORD_HASH)

def expectedHash (P : Primitives) (attempt response : Json) : Except JsError JsString :=
  computeRecordHash P (some attempt) (response.get Fields.SEQ) (response.get Fields.HOST_TS)
    (response.get Fields.PREVIOUS_HASH)

-- The verifier was asked about a response's countersignature, and said this.
def Told (P : Primitives) (trace : Trace) (response : Json) (verdict : Verdict) : Prop :=
  ∃ payload, payloadOf P response = .ok payload ∧
    (⟨.verify (response.get Fields.HOST_KEY_ID) (response.get Fields.HOST_SIGNATURE) payload, some (.ok verdict)⟩ :
      Exchange SessionCall.Answer) ∈ trace

-- The countersignature is there where it must be, and is valid where it is checked.
structure CountersignatureHolds (P : Primitives) (session : AmcpSession) (trace : Trace) (response : Json) : Prop where
  present : session.requireCountersign = true → (response.get Fields.HOST_SIGNATURE).isSome = true
  valid : Checked session response → Told P trace response .valid

-- The record hash is the one of the attempt as it was sent.
def HashAgrees (P : Primitives) (session : AmcpSession) (attempt response : Json) : Prop :=
  session.pollutedStop = true →
    ∃ expected, expectedHash P attempt response = .ok expected ∧
      response.get Fields.RECORD_HASH = some (.str expected)

def IsAccept (response : Json) : Prop := Json.isText (response.get Fields.STATUS) Status.ACCEPT = true

-- What clears an operation.
structure Clears (P : Primitives) (session : AmcpSession) (trace : Trace) (attempt response : Json) : Prop where
  accepted : IsAccept response
  countersigned : CountersignatureHolds P session trace response
  hash : HashAgrees P session attempt response

-- The reason the status alone gives to refuse an operation, the one the countersignature
-- gives, with what the verifier made of it, and the one the hash gives.
def statusRefusal (response : Json) : Option AbortReason :=
  if Json.isText (response.get Fields.STATUS) Status.ACCEPT then none
  else if Json.isText (response.get Fields.STATUS) Status.REJECT then some .hostRejected
  else some .hostUnavailable

def verdictRefusal : Option Verdict → Option AbortReason
  | some .unavailable => some .hostUnavailable
  | some .invalid => some .hostSignatureInvalid
  | _ => none

def countersignatureRefusal (session : AmcpSession) (response : Json) (verdict : Option Verdict) : Option AbortReason :=
  if session.requireCountersign = true ∧ response.get Fields.HOST_SIGNATURE = none then some .hostUncountersigned
  else if (response.get Fields.HOST_SIGNATURE).isSome = true ∧ session.countersignatureVerifier = true then
    verdictRefusal verdict
  else none

def hashRefusal (P : Primitives) (session : AmcpSession) (attempt response : Json) : Option AbortReason :=
  match expectedHash P attempt response with
  | .ok expected =>
      if session.pollutedStop && !Json.isText (response.get Fields.RECORD_HASH) expected then some .hashMismatch else none
  | .error _ => none

-- The precedence of §7.2: status, then countersignature, then hash.
def refusal (P : Primitives) (session : AmcpSession) (attempt : Json) (answer : Except JsError (Option Json))
    (verdict : Option Verdict) : Option AbortReason :=
  match answer with
  | .error _ => some .hostUnavailable
  | .ok response =>
      let response := response.getD .null
      (statusRefusal response).or
        ((countersignatureRefusal session response verdict).or (hashRefusal P session attempt response))

-- The checks on an accept can be made: its countersignature payload has a canonical form
-- where it is checked, and so has the record where its hash is.
structure Computes (P : Primitives) (session : AmcpSession) (attempt response : Json) (verdict : Option Verdict) :
    Prop where
  payload : Checked session response → ∃ payload, payloadOf P response = .ok payload
  hash : countersignatureRefusal session response verdict = none → session.pollutedStop = true →
    ∃ expected, expectedHash P attempt response = .ok expected

section

variable {P : Primitives} {session : AmcpSession} {trace : Trace} {response : Json}

theorem CountersignatureHolds.payload (h : CountersignatureHolds P session trace response) (hchecked : Checked session response) :
    ∃ payload, payloadOf P response = .ok payload := by
  obtain ⟨payload, hpayload, -⟩ := h.valid hchecked
  exact ⟨payload, hpayload⟩

theorem expected_of_hashRefusal {attempt : Json} {reason : AbortReason}
    (h : hashRefusal P session attempt response = some reason) :
    ∃ expected, expectedHash P attempt response = .ok expected := by
  unfold hashRefusal at h
  split at h
  · exact ⟨_, by assumption⟩
  · cases h

theorem statusRefusal_accept (h : IsAccept response) : statusRefusal response = none := if_pos h

theorem refusal_accept (h : IsAccept response) (attempt : Json) (verdict : Option Verdict) :
    refusal P session attempt (.ok (some response)) verdict =
      (countersignatureRefusal session response verdict).or (hashRefusal P session attempt response) := by
  show (statusRefusal response).or _ = _
  rw [statusRefusal_accept h, Option.none_or]
  rfl

end

-- The aborted outcome was emitted as far as that went, and the abort thrown for one reason.
def Aborted (session : AmcpSession) (action : AuditedAction) (reason : AbortReason) (emission : Trace) (e : JsError) :
    Prop :=
  (∃ settled, Runs (emitOutcome session action Outcome.ABORTED (some reason.text)) emission (some settled)) ∧
    (e = .abortedError action.actionType action.target.ref reason.text ∨
      ∃ cause, e = .abortedBy action.actionType action.target.ref reason.text cause)

section

variable {P : Primitives} {session : AmcpSession} {action : AuditedAction} {trace : Trace}

theorem runs_emitAborted {reason : AbortReason} {result : Except JsError Unit}
    (h : Runs (emitAbortedBestEffort session action reason) trace (some result)) :
    result = .ok () ∧ ∃ settled, Runs (emitOutcome session action Outcome.ABORTED (some reason.text)) trace (some settled) := by
  unfold emitAbortedBestEffort at h
  rcases runs_bind.mp h with ⟨settled, first, rest, hsettle, hreturn, rfl⟩ | ⟨e, hsettle, -⟩ | ⟨-, hnone⟩
  · obtain ⟨rfl, hresult⟩ := runs_pure.mp hreturn
    rcases runs_settle.mp hsettle with ⟨other, hemit, -⟩ | ⟨-, hnone⟩
    · rw [List.append_nil]
      exact ⟨by simpa using hresult, other, hemit⟩
    · cases hnone
  · rcases runs_settle.mp hsettle with ⟨other, -, hother⟩ | ⟨-, hnone⟩
    · cases hother
    · cases hnone
  · cases hnone

-- Emitting the aborted outcome before something is thrown.
theorem runs_emitAborted_throw {α : Type} {reason : AbortReason} {e : JsError} {result : Except JsError α}
    (h : Runs (do emitAbortedBestEffort session action reason; ofExcept (.error e)) trace (some result)) :
    result = .error e ∧
      ∃ settled, Runs (emitOutcome session action Outcome.ABORTED (some reason.text)) trace (some settled) := by
  rcases runs_bind.mp h with ⟨_, first, rest, hemit, hthrow, rfl⟩ | ⟨e', hemit, -⟩ | ⟨-, hnone⟩
  · obtain ⟨rfl, hresult⟩ := runs_ofExcept.mp hthrow
    obtain ⟨-, hemitted⟩ := runs_emitAborted hemit
    rw [List.append_nil]
    exact ⟨Option.some.inj hresult, hemitted⟩
  · cases (runs_emitAborted hemit).1
  · cases hnone

theorem runs_abort {α : Type} {reason : AbortReason} {result : Except JsError α}
    (h : Runs (abort session action reason : Tool α) trace (some result)) :
    ∃ e, result = .error e ∧ Aborted session action reason trace e := by
  obtain ⟨hresult, hemitted⟩ := runs_emitAborted_throw h
  exact ⟨_, hresult, hemitted, Or.inl rfl⟩

-- How the check of the status ends: with an accept, with a refusal, or with a response
-- that has no members.
theorem runs_checkStatus {sent : Sent} {answer : Except JsError (Option Json)} (hreports : sent.Reports (some answer))
    {result : Except JsError Json} (h : Runs (checkStatus session action sent) trace (some result)) :
    (∃ response, result = .ok response ∧ trace = [] ∧ answer = .ok (some response) ∧ IsAccept response) ∨
      (∃ reason e, result = .error e ∧ Aborted session action reason trace e ∧
        (∀ response, answer = .ok (some response) → ¬IsAccept response) ∧ ∀ attempt verdict, refusal P session attempt answer verdict = some reason) ∨
      (trace = [] ∧ (answer = .ok none ∨ answer = .ok (some .null)) ∧ ∃ e, result = .error e) := by
  unfold checkStatus at h
  rcases hreports with ⟨response, hanswer, hresponse, hfault⟩ | ⟨fault, hanswer, hfault⟩
  · obtain rfl := Option.some.inj hanswer
    rw [hfault, hresponse] at h
    have hobject : (response = none ∨ response = some .null) ∨
        ∃ value, response = some value ∧ readMember Fields.STATUS response = .ok (value.get Fields.STATUS) := by
      cases response with
      | none => exact Or.inl (Or.inl rfl)
      | some value =>
          cases value with
          | null => exact Or.inl (Or.inr rfl)
          | _ => exact Or.inr ⟨_, rfl, rfl⟩
    rcases hobject with hnone | ⟨value, rfl, hread⟩
    · have hthrows : readMember Fields.STATUS response = .error .typeError := by
        rcases hnone with rfl | rfl <;> rfl
      rw [hthrows] at h
      rcases runs_bind.mp h with ⟨status, first, rest, hstatus, -, -⟩ | ⟨e, hstatus, he⟩ | ⟨-, hnever⟩
      · obtain ⟨-, hcontra⟩ := runs_ofExcept.mp hstatus
        cases hcontra
      · obtain ⟨rfl, -⟩ := runs_ofExcept.mp hstatus
        exact Or.inr (Or.inr ⟨rfl, by rcases hnone with rfl | rfl <;> simp, e, Option.some.inj he⟩)
      · cases hnever
    · rw [hread] at h
      rcases runs_bind.mp h with ⟨status, first, rest, hstatus, hrest, rfl⟩ | ⟨e, hstatus, he⟩ | ⟨-, hnever⟩
      · obtain ⟨rfl, hsame⟩ := runs_ofExcept.mp hstatus
        obtain rfl : status = value.get Fields.STATUS := by simpa using hsame
        rw [List.nil_append]
        split at hrest
        · rename_i haccept
          obtain ⟨rfl, hresult⟩ := runs_pure.mp hrest
          exact Or.inl ⟨value, by simpa using hresult, rfl, rfl, haccept⟩
        · rename_i haccept
          obtain ⟨e, hresult, haborted⟩ := runs_abort hrest
          refine Or.inr (Or.inl ⟨_, e, hresult, haborted, fun other hother => ?_, fun attempt verdict => ?_⟩)
          · obtain rfl := Option.some.inj (Except.ok.inj hother)
            exact haccept
          show (statusRefusal value).or _ = _
          rw [statusRefusal, if_neg haccept]
          split
          · rfl
          · rfl
      · obtain ⟨-, hcontra⟩ := runs_ofExcept.mp hstatus
        cases hcontra
      · cases hnever
  · obtain rfl := Option.some.inj hanswer
    rw [hfault] at h
    obtain ⟨hresult, hemitted⟩ := runs_emitAborted_throw h
    exact Or.inr (Or.inl ⟨.hostUnavailable, _, hresult, ⟨hemitted, Or.inr ⟨fault, rfl⟩⟩, by simp, fun _ _ => rfl⟩)

theorem told_of_mem {response : Json} {payload : List UInt8} {verdict : Verdict} {more : Trace}
    (hpayload : payloadOf P response = .ok payload) : Told P (⟨.verify (response.get Fields.HOST_KEY_ID)
      (response.get Fields.HOST_SIGNATURE) payload, some (.ok verdict)⟩ :: more) response verdict :=
  ⟨payload, hpayload, List.mem_cons_self ..⟩

-- How the check of the countersignature ends: with the accept as it is, with a refusal,
-- or with an error of the payload or of the verifier.
theorem runs_checkCountersigned {response : Json} {result : Except JsError Unit}
    (h : Runs (checkCountersigned P session action response) trace (some result)) :
    (result = .ok () ∧ CountersignatureHolds P session trace response ∧ outcomes trace = [] ∧
        ∀ more, countersignatureRefusal session response (verdicts (trace ++ more)).head? = none) ∨
      (∃ reason e before emission, result = .error e ∧ trace = before ++ emission ∧ outcomes before = [] ∧
        Aborted session action reason emission e ∧
        (Checked session response → ∃ payload, payloadOf P response = .ok payload) ∧
        ∀ more, countersignatureRefusal session response (verdicts (before ++ more)).head? = some reason) ∨
      (∃ e, result = .error e ∧ Checked session response ∧ trace = [] ∧ payloadOf P response = .error e) ∨
      (∃ e payload, result = .error e ∧ Checked session response ∧ outcomes trace = [] ∧
        (⟨.verify (response.get Fields.HOST_KEY_ID) (response.get Fields.HOST_SIGNATURE) payload, some (.error e)⟩ :
          Exchange SessionCall.Answer) ∈ trace) := by
  unfold checkCountersigned at h
  split at h
  · rename_i hmissing
    obtain ⟨e, hresult, haborted⟩ := runs_abort h
    refine Or.inr (Or.inl ⟨_, e, [], trace, hresult, rfl, rfl, haborted, fun hchecked => ?_, fun _ => if_pos hmissing⟩)
    have hsigned := hchecked.1
    rw [hmissing.2] at hsigned
    cases hsigned
  · rename_i hmissing
    have hpresent : session.requireCountersign = true → (response.get Fields.HOST_SIGNATURE).isSome = true := by
      intro hrequired
      rw [Option.isSome_iff_ne_none]
      exact fun hnone => hmissing ⟨hrequired, hnone⟩
    split at h
    · rename_i hchecked
      have hrefusal : ∀ verdict, countersignatureRefusal session response verdict = verdictRefusal verdict :=
        fun verdict => by rw [countersignatureRefusal, if_neg hmissing, if_pos hchecked]
      rcases runs_bind.mp h with ⟨payload, first, rest, hpayload, hrest, rfl⟩ | ⟨e, hpayload, he⟩ | ⟨-, hnone⟩
      · obtain ⟨rfl, hsame⟩ := runs_ofExcept.mp hpayload
        have hpayload : payloadOf P response = .ok payload := (Option.some.inj hsame).symm
        rw [List.nil_append]
        rcases runs_bind.mp hrest with ⟨verdict, asked, last, hask, hlast, rfl⟩ | ⟨e, hask, he⟩ | ⟨-, hnone⟩
        · rcases runs_askOk.mp hask with ⟨-, hnone⟩ | ⟨answer, rfl, hanswer⟩
          · cases hnone
          · obtain rfl : answer = .ok verdict := (Option.some.inj hanswer).symm
            have hasked : outcomes [⟨SessionCall.verify (response.get Fields.HOST_KEY_ID)
                (response.get Fields.HOST_SIGNATURE) payload, some (.ok verdict)⟩] = [] := rfl
            cases verdict with
            | valid =>
                obtain ⟨rfl, hresult⟩ := runs_pure.mp hlast
                refine Or.inl ⟨Option.some.inj hresult, ⟨hpresent, fun _ => told_of_mem hpayload⟩, ?_, fun _ => hrefusal _⟩
                rw [List.append_nil]
                exact hasked
            | invalid =>
                obtain ⟨e, hresult, haborted⟩ := runs_abort hlast
                exact Or.inr (Or.inl ⟨_, e, _, last, hresult, rfl, hasked, haborted,
                  fun _ => ⟨payload, hpayload⟩, fun _ => hrefusal _⟩)
            | unavailable =>
                obtain ⟨e, hresult, haborted⟩ := runs_abort hlast
                exact Or.inr (Or.inl ⟨_, e, _, last, hresult, rfl, hasked, haborted,
                  fun _ => ⟨payload, hpayload⟩, fun _ => hrefusal _⟩)
        · rcases runs_askOk.mp hask with ⟨-, hnone⟩ | ⟨answer, rfl, hanswer⟩
          · cases hnone
          · obtain rfl : answer = .error e := (Option.some.inj hanswer).symm
            exact Or.inr (Or.inr (Or.inr ⟨e, payload, Option.some.inj he, hchecked, rfl, by simp⟩))
        · cases hnone
      · obtain ⟨rfl, hsame⟩ := runs_ofExcept.mp hpayload
        exact Or.inr (Or.inr (Or.inl ⟨e, Option.some.inj he, hchecked, rfl, (Option.some.inj hsame).symm⟩))
      · cases hnone
    · rename_i hunchecked
      obtain ⟨rfl, hresult⟩ := runs_pure.mp h
      refine Or.inl ⟨Option.some.inj hresult, ⟨hpresent, fun hchecked => absurd hchecked hunchecked⟩, rfl, fun _ => ?_⟩
      rw [countersignatureRefusal, if_neg hmissing, if_neg hunchecked]

-- How the check of the hash ends.
theorem runs_checkPollutedStop {attempt response : Json} {result : Except JsError Unit}
    (h : Runs (checkPollutedStop P session action attempt response) trace (some result)) :
    (result = .ok () ∧ HashAgrees P session attempt response ∧ trace = []) ∨
      (∃ e, result = .error e ∧ Aborted session action .hashMismatch trace e ∧
        hashRefusal P session attempt response = some .hashMismatch) ∨
      (∃ e, result = .error e ∧ session.pollutedStop = true ∧ trace = [] ∧ expectedHash P attempt response = .error e) := by
  unfold checkPollutedStop at h
  cases hstop : session.pollutedStop with
  | false =>
      rw [hstop] at h
      obtain ⟨rfl, hresult⟩ := runs_pure.mp h
      refine Or.inl ⟨Option.some.inj hresult, fun hon => ?_, rfl⟩
      rw [hstop] at hon
      cases hon
  | true =>
      rw [hstop] at h
      rcases runs_bind.mp h with ⟨expected, first, rest, hexpected, hrest, rfl⟩ | ⟨e, hexpected, he⟩ | ⟨-, hnone⟩
      · obtain ⟨rfl, hsame⟩ := runs_ofExcept.mp hexpected
        have hexpected : expectedHash P attempt response = .ok expected := (Option.some.inj hsame).symm
        rw [List.nil_append]
        split at hrest
        · rename_i hagrees
          obtain ⟨rfl, hresult⟩ := runs_pure.mp hrest
          exact Or.inl ⟨Option.some.inj hresult, fun _ => ⟨expected, hexpected, Json.isText_eq_true.mp hagrees⟩, rfl⟩
        · rename_i hdiffers
          obtain ⟨e, hresult, haborted⟩ := runs_abort hrest
          refine Or.inr (Or.inl ⟨e, hresult, haborted, ?_⟩)
          rw [hashRefusal, hexpected]
          exact if_pos (by simp [hstop, hdiffers])
      · obtain ⟨rfl, hsame⟩ := runs_ofExcept.mp hexpected
        exact Or.inr (Or.inr ⟨e, Option.some.inj he, rfl, rfl, (Option.some.inj hsame).symm⟩)
      · cases hnone

-- The errors that are thrown as they come, with nothing emitted: of a response that has
-- no members, of a payload or a preimage that cannot be canonicalized, of the verifier.
inductive Broken (P : Primitives) (session : AmcpSession) (trace : Trace) (attempt : Json) :
    Except JsError (Option Json) → JsError → Prop where
  | absent (response : Option Json) (hnone : response = none ∨ response = some .null) (e : JsError) :
      Broken P session trace attempt (.ok response) e
  | payload (response : Json) (haccept : IsAccept response) (hchecked : Checked session response) (e : JsError)
      (hpayload : payloadOf P response = .error e) : Broken P session trace attempt (.ok (some response)) e
  | verifier (response : Json) (haccept : IsAccept response) (hchecked : Checked session response) (e : JsError)
      (payload : List UInt8) (hmem : (⟨.verify (response.get Fields.HOST_KEY_ID)
        (response.get Fields.HOST_SIGNATURE) payload, some (.error e)⟩ : Exchange SessionCall.Answer) ∈ trace) :
      Broken P session trace attempt (.ok (some response)) e
  | hash (response : Json) (haccept : IsAccept response)
      (hcountersigned : countersignatureRefusal session response (verdicts trace).head? = none) (hstop : session.pollutedStop = true) (e : JsError) (hexpected : expectedHash P attempt response = .error e) :
      Broken P session trace attempt (.ok (some response)) e

-- How the checks on an answered attempt end.
inductive Concludes (P : Primitives) (session : AmcpSession) (action : AuditedAction) (attempt : Json)
    (answer : Except JsError (Option Json)) (trace : Trace) : Except JsError AuditedAction → Prop where
  | cleared (response : Json) (hanswer : answer = .ok (some response)) (hclears : Clears P session trace attempt response)
      (hnone : outcomes trace = []) :
      Concludes P session action attempt answer trace (.ok { action with accept := some response })
  | refused (reason : AbortReason) (e : JsError) (before emission : Trace) (hsplit : trace = before ++ emission)
      (hnone : outcomes before = []) (haborted : Aborted session action reason emission e)
      (hrefusal : refusal P session attempt answer (verdicts trace).head? = some reason)
      (hcomputes : ∀ response, answer = .ok (some response) → IsAccept response →
        Computes P session attempt response (verdicts trace).head?) :
      Concludes P session action attempt answer trace (.error e)
  | broken (e : JsError) (hnone : outcomes trace = []) (hbroken : Broken P session trace attempt answer e) :
      Concludes P session action attempt answer trace (.error e)

theorem runs_clear {sent : Sent} {answer : Except JsError (Option Json)} (hreports : sent.Reports (some answer))
    {result : Except JsError AuditedAction} (h : Runs (clear P session action sent) trace (some result)) :
    Concludes P session action sent.attempt answer trace result := by
  unfold clear at h
  rcases runs_bind.mp h with ⟨response, first, rest, hstatus, hchecks, rfl⟩ | ⟨e, hstatus, he⟩ | ⟨-, hnone⟩
  · rcases runs_checkStatus (P := P) hreports hstatus with ⟨other, hother, rfl, hanswer, haccept⟩ |
      ⟨reason, e, hcontra, -⟩ | ⟨-, -, e, hcontra⟩
    · obtain rfl := Except.ok.inj hother
      rw [List.nil_append]
      rcases runs_bind.mp hchecks with ⟨_, second, rest, hcheck, hhash, rfl⟩ | ⟨e, hcheck, he⟩ | ⟨-, hnone⟩
      · rcases runs_checkCountersigned hcheck with ⟨-, hcountersigned, hsecond, hpassed⟩ |
          ⟨reason, e, before, emission, hcontra, -⟩ | ⟨e, hcontra, -⟩ | ⟨e, payload, hcontra, -⟩
        · rcases runs_bind.mp hhash with ⟨_, third, last, hstop, hreturn, rfl⟩ | ⟨e, hstop, he⟩ | ⟨-, hnone⟩
          · rcases runs_checkPollutedStop hstop with ⟨-, hagrees, rfl⟩ | ⟨e, hcontra, -⟩ | ⟨e, hcontra, -⟩
            · obtain ⟨rfl, hresult⟩ := runs_pure.mp hreturn
              obtain rfl := Option.some.inj hresult
              rw [List.nil_append, List.append_nil]
              exact .cleared response hanswer ⟨haccept, hcountersigned, hagrees⟩ hsecond
            · cases hcontra
            · cases hcontra
          · obtain rfl := Option.some.inj he
            rcases runs_checkPollutedStop hstop with ⟨hcontra, -⟩ | ⟨e', hresult, haborted, hmismatch⟩ |
              ⟨e', hresult, hon, rfl, hexpected⟩
            · cases hcontra
            · obtain rfl := Except.error.inj hresult
              subst hanswer
              refine .refused .hashMismatch e second rest rfl hsecond haborted ?_ fun other hother _ => ?_
              · rw [refusal_accept haccept, hpassed, Option.none_or]
                exact hmismatch
              · obtain rfl := Option.some.inj (Except.ok.inj hother)
                exact ⟨hcountersigned.payload, fun _ _ => expected_of_hashRefusal hmismatch⟩
            · obtain rfl := Except.error.inj hresult
              subst hanswer
              rw [List.append_nil]
              exact .broken e hsecond (.hash response haccept (by simpa using hpassed []) hon e hexpected)
          · cases hnone
        · cases hcontra
        · cases hcontra
        · cases hcontra
      · obtain rfl := Option.some.inj he
        subst hanswer
        rcases runs_checkCountersigned hcheck with ⟨hcontra, -⟩ |
          ⟨reason, e', before, emission, hresult, rfl, hbefore, haborted, hpayload, hrefusal⟩ |
          ⟨e', hresult, hchecked, rfl, hpayload⟩ | ⟨e', payload, hresult, hchecked, hnone, hmem⟩
        · cases hcontra
        · obtain rfl := Except.error.inj hresult
          refine .refused reason e before emission rfl hbefore haborted ?_ fun other hother _ => ?_
          · rw [refusal_accept haccept, hrefusal, Option.some_or]
          · obtain rfl := Option.some.inj (Except.ok.inj hother)
            refine ⟨hpayload, fun hnone => ?_⟩
            rw [hrefusal] at hnone
            cases hnone
        · obtain rfl := Except.error.inj hresult
          exact .broken e rfl (.payload response haccept hchecked e hpayload)
        · obtain rfl := Except.error.inj hresult
          exact .broken e hnone (.verifier response haccept hchecked e payload hmem)
      · cases hnone
    · cases hcontra
    · cases hcontra
  · obtain rfl := Option.some.inj he
    rcases runs_checkStatus (P := P) hreports hstatus with ⟨other, hcontra, -⟩ |
      ⟨reason, e', hresult, haborted, hstatus, hrefusal⟩ | ⟨rfl, hnone, e', hresult⟩
    · cases hcontra
    · obtain rfl := Except.error.inj hresult
      exact .refused reason e [] trace rfl rfl haborted (hrefusal _ _) fun response hanswer haccept =>
        absurd haccept (hstatus response hanswer)
    · rcases hnone with rfl | rfl
      · exact .broken e rfl (.absent none (Or.inl rfl) e)
      · exact .broken e rfl (.absent (some .null) (Or.inr rfl) e)
  · cases hnone

end

end AuditableMcp
