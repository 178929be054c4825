import AuditableMcp.Library.Protocol
import AuditableMcp.Tool.Emission

-- Which calls a signing session makes inside the numbering section, and which outside.
namespace AuditableMcp

open Program

-- An event signed under a key and a number.
structure Carries (keyId : JsString) (event : Json) (signerSeq : Nat) : Prop where
  key : event.get Fields.KEY_ID = some (.str keyId)
  number : event.get Fields.SIGNER_SEQ = some (.num (.ofNat signerSeq))

-- How far a section has come: it has its number, its event is with the transport, the
-- number is used up, or something threw.
inductive Stage where
  | outside
  | numbered (signerSeq : Nat)
  | delivered (signerSeq : Nat)
  | advanced (signerSeq : Nat)
  | failed (signerSeq : Nat)

def Stage.allows (keyId : JsString) : Stage → SessionCall → Prop
  | .outside, .newId => True
  | .outside, .randomValues _ => True
  | .outside, .verify _ _ _ => True
  | .outside, .handler _ => True
  | .outside, .enter => True
  | .numbered _, .now => True
  | .numbered n, .sign _ signerSeq => signerSeq = n
  | .numbered n, .sendAttempt event => Carries keyId event n
  | .numbered n, .sendOutcome event => Carries keyId event n
  | .numbered _, .leave => True
  | .delivered n, .advance next => next = n + 1
  | .advanced _, .leave => True
  | .failed _, .leave => True
  | _, _ => False

-- An attempt that the transport did not take for misuse is delivered, whatever becomes of it.
def Stage.next : Stage → (c : SessionCall) → c.Answer → Stage
  | _, .enter, signerSeq => .numbered signerSeq
  | .numbered n, .now, .error _ => .failed n
  | .numbered n, .sign _ _, .error _ => .failed n
  | .numbered n, .sendAttempt _, .error (.usageError _) => .failed n
  | .numbered n, .sendAttempt _, _ => .delivered n
  | .numbered n, .sendOutcome _, .ok _ => .delivered n
  | .numbered n, .sendOutcome _, .error _ => .failed n
  | .delivered n, .advance _, _ => .advanced n
  | _, .leave, _ => .outside
  | stage, _, _ => stage

-- A signer stamps its key and the number it is given.
def Stamps (keyId : JsString) : (c : SessionCall) → c.Answer → Prop
  | .sign _ signerSeq, .ok event => Carries keyId event signerSeq
  | _, _ => True

def sections (keyId : JsString) : Protocol SessionCall.Answer Stage :=
  ⟨Stage.allows keyId, Stage.next, Stamps keyId⟩

-- What a body comes to: its event is delivered, or it threw before that.
def SectionEnds {α : Type} (n : Nat) (stage : Stage) : Except JsError α → Prop
  | .ok _ => stage = .delivered n
  | .error _ => stage = .numbered n ∨ stage = .failed n

-- What comes of a section's event, and of the time it is given.
def Stamped (keyId : JsString) (n : Nat) (stage : Stage) : Except JsError Json → Prop
  | .ok event => stage = .numbered n ∧ Carries keyId event n
  | .error _ => stage = .numbered n ∨ stage = .failed n

def Dated (n : Nat) (stage : Stage) : Except JsError JsString → Prop
  | .ok _ => stage = .numbered n
  | .error _ => stage = .failed n

section

variable {session : AmcpSession} {action : AuditedAction} {P : Primitives} {keyId : JsString}

theorem follows_askOk {α : Type} {c : SessionCall} {h : c.Answer = Except JsError α} {stage : Stage}
    {post : Stage → Except JsError α → Prop} (hallowed : stage.allows keyId c)
    (hpost : ∀ x : c.Answer, Stamps keyId c x → post (stage.next c x) (h ▸ x)) :
    (askOk c h).Follows (sections keyId) post stage :=
  ⟨hallowed, fun x hx => follows_ofExcept (hpost x hx)⟩

-- An event is stamped with the number of its section.
theorem follows_build (hsigner : session.signer = some keyId) (outcome : JsString) (n : Nat) (reason : Option JsString) :
    (build session action outcome (some n) reason).Follows (sections keyId) (Stamped keyId n) (.numbered n) := by
  unfold build
  have hnow : (askOk .now rfl : Tool JsString).Follows (sections keyId) (Dated n) (.numbered n) := by
    refine follows_askOk trivial fun x _ => ?_
    cases x with
    | ok ts => rfl
    | error e => rfl
  refine hnow.bind ?_ ?_
  · rintro stage ts rfl
    dsimp only
    split
    · unfold stamp
      rw [hsigner]
      refine follows_askOk (c := .sign _ n) rfl fun x hx => ?_
      cases x with
      | ok event => exact ⟨rfl, hx⟩
      | error e => exact Or.inr rfl
    · exact Or.inl rfl
  · rintro stage e rfl
    exact Or.inr rfl

-- A program that is outside a section when it begins and when it ends.
def Outward (keyId : JsString) {α : Type} (program : Tool α) : Prop :=
  program.Follows (sections keyId) (fun stage _ => stage = .outside) .outside

namespace Outward

variable {α β : Type}

theorem pure (a : α) : Outward keyId (Pure.pure a : Tool α) := rfl

theorem ofExcept (x : Except JsError α) : Outward keyId (Program.ofExcept x) := follows_ofExcept rfl

theorem bind {program : Tool α} {f : α → Tool β} (h : Outward keyId program) (hf : ∀ a, Outward keyId (f a)) :
    Outward keyId (program >>= f) := by
  refine Follows.bind h ?_ fun stage e hstage => hstage
  rintro stage a rfl
  exact hf a

theorem settle {program : Tool α} (h : Outward keyId program) : Outward keyId program.settle :=
  (Follows.settle h).mono fun stage result hresult => by
    obtain ⟨settled, -, hstage⟩ := hresult
    exact hstage

end Outward

-- A section round a body that delivers, or throws first.
theorem outward_numbering {α : Type} {body : Option Nat → Tool α} (hsigner : session.signer = some keyId)
    (hbody : ∀ n, (body (some n)).Follows (sections keyId) (SectionEnds n) (.numbered n)) :
    Outward keyId (numbering session body) := by
  unfold numbering
  rw [hsigner]
  refine ⟨trivial, fun n _ => ?_⟩
  have hadvancing : (do let result ← body (some n); ask (SessionCall.advance (n + 1)); return result : Tool α).Follows
      (sections keyId) (fun stage _ => stage = .advanced n ∨ stage = .numbered n ∨ stage = .failed n) (.numbered n) := by
    refine (hbody n).bind ?_ fun stage e hstage => Or.inr hstage
    rintro stage a rfl
    exact ⟨rfl, fun _ _ => Or.inl rfl⟩
  refine hadvancing.andFinally fun stage result hstage => ?_
  rcases hstage with rfl | rfl | rfl
  · exact ⟨trivial, fun _ _ => rfl⟩
  · exact ⟨trivial, fun _ _ => rfl⟩
  · exact ⟨trivial, fun _ _ => rfl⟩

theorem outward_emitOutcome (hsigner : session.signer = some keyId) (outcome : JsString) (reason : Option JsString) :
    Outward keyId (emitOutcome session action outcome reason) := by
  refine outward_numbering hsigner fun n => (follows_build hsigner outcome n reason).bind ?_ fun _ _ hstage => hstage
  rintro stage event ⟨rfl, hcarries⟩
  refine follows_askOk (c := .sendOutcome event) hcarries fun x _ => ?_
  cases x with
  | ok _ => rfl
  | error e => exact Or.inr rfl

theorem outward_sendNumbered (hsigner : session.signer = some keyId) :
    Outward keyId (sendNumbered session action) := by
  refine outward_numbering hsigner fun n => (follows_build hsigner _ n _).bind ?_ fun _ _ hstage => hstage
  rintro stage event ⟨rfl, hcarries⟩
  refine ⟨hcarries, fun x _ => ?_⟩
  cases x with
  | ok response => rfl
  | error fault =>
      cases fault with
      | usageError message => exact Or.inr rfl
      | _ => rfl

theorem outward_abort {α : Type} (hsigner : session.signer = some keyId) (reason : AbortReason) :
    Outward keyId (abort session action reason : Tool α) :=
  ((outward_emitOutcome hsigner _ _).settle.bind fun _ => .pure ()).bind fun _ => .ofExcept _

theorem outward_checkStatus (hsigner : session.signer = some keyId) (sent : Sent) :
    Outward keyId (checkStatus session action sent) := by
  unfold checkStatus
  split
  · exact ((outward_emitOutcome hsigner _ _).settle.bind fun _ => .pure ()).bind fun _ => .ofExcept _
  · refine (Outward.ofExcept _).bind fun status => ?_
    split
    · exact .pure _
    · exact outward_abort hsigner _

theorem outward_checkCountersigned (hsigner : session.signer = some keyId) (response : Json) :
    Outward keyId (checkCountersigned P session action response) := by
  unfold checkCountersigned
  split
  · exact outward_abort hsigner _
  · split
    · refine (Outward.ofExcept _).bind fun payload => ?_
      have hverify : Outward keyId (askOk (.verify (response.get Fields.HOST_KEY_ID) (response.get Fields.HOST_SIGNATURE) payload)
          rfl : Tool Verdict) := follows_askOk trivial fun _ _ => rfl
      refine hverify.bind fun verdict => ?_
      cases verdict with
      | valid => exact .pure ()
      | invalid => exact outward_abort hsigner _
      | unavailable => exact outward_abort hsigner _
    · exact .pure ()

theorem outward_checkPollutedStop (hsigner : session.signer = some keyId) (attempt response : Json) :
    Outward keyId (checkPollutedStop P session action attempt response) := by
  unfold checkPollutedStop
  split
  · refine (Outward.ofExcept _).bind fun expected => ?_
    split
    · exact .pure ()
    · exact outward_abort hsigner _
  · exact .pure ()

theorem outward_newAction (spec : AuditSpec) : Outward keyId (newAction P spec) := by
  refine (Outward.ofExcept _).bind fun target => ?_
  have hid : Outward keyId (askOk .newId rfl : Tool JsString) := follows_askOk trivial fun _ _ => rfl
  refine hid.bind fun id => ?_
  have hsalt : Outward keyId newSalt := ⟨trivial, fun _ _ => rfl⟩
  unfold AuditedAction.create
  dsimp only
  split
  · split
    · exact (Outward.pure _).bind fun _ => (Outward.pure _).bind fun _ => .pure _
    · exact (Outward.pure _).bind fun _ => hsalt.bind fun _ => (Outward.pure _).bind fun _ => .pure _
  · split
    · exact (Outward.ofExcept _).bind fun _ => (Outward.pure _).bind fun _ => (Outward.pure _).bind fun _ => .pure _
    · exact (Outward.ofExcept _).bind fun _ => (Outward.pure _).bind fun _ => hsalt.bind fun _ =>
        (Outward.pure _).bind fun _ => .pure _

theorem outward_action (hsigner : session.signer = some keyId) (spec : AuditSpec) :
    Outward keyId (AmcpSession.action P session spec) := by
  refine (outward_newAction spec).bind fun action => (outward_sendNumbered hsigner).bind fun sent => ?_
  refine (outward_checkStatus hsigner sent).bind fun response => ?_
  exact (outward_checkCountersigned hsigner response).bind fun _ =>
    (outward_checkPollutedStop hsigner sent.attempt response).bind fun _ => .pure _

theorem outward_asyncDispose (hsigner : session.signer = some keyId) : Outward keyId (asyncDispose session action) := by
  unfold asyncDispose
  split
  · exact .pure _
  · exact (outward_emitOutcome hsigner _ _).settle.bind fun _ => .pure _

theorem outward_makeMoves (hsigner : session.signer = some keyId) (moves : List Move) (action : AuditedAction) :
    Outward keyId (makeMoves session action moves) := by
  induction moves generalizing action with
  | nil => exact .pure action
  | cons move rest ih =>
      cases move with
      | succeeded => exact ih action.succeeded
      | failed => exact ih action.failed
      | dispose => exact (outward_asyncDispose hsigner).bind fun action => ih action

theorem outward_withAudit (hsigner : session.signer = some keyId) (spec : AuditSpec) :
    Outward keyId (withAudit P session spec) := by
  refine (outward_action hsigner spec).bind fun action => ?_
  have hhandler : Outward keyId (ask (SessionCall.handler (action.accept.getD .null)) : Tool HandlerRun) :=
    ⟨trivial, fun _ _ => rfl⟩
  refine hhandler.bind fun run => (outward_makeMoves hsigner run.moves action).bind fun action => ?_
  split
  · exact (outward_asyncDispose hsigner).bind fun _ => .pure _
  · exact (outward_asyncDispose hsigner).bind fun _ => .ofExcept _

end

end AuditableMcp
