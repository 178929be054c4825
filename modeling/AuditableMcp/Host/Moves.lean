import AuditableMcp.Host.Deliveries

namespace AuditableMcp

-- The stored record a call takes over before it goes on.
def Call.adopts (w : World) : Call → Option SealedRecord
  | .attempt answers _ _ expired =>
      match answers.loadTail, expired with
      | .reads, false => w.landed
      | _, _ => none
  | .outcome answers event _ =>
      match answers.loadTail, event.isObject with
      | .reads, true => w.landed
      | _, _ => none
  | _ => none

-- What one call does to the world: every call but a delivery is a single change, and a
-- delivery adopts a record only where `adopts` says.
inductive Moves (P : Primitives) (w : World) (call : Call) : World → Prop where
  | stayed : Moves P w call w
  | delivered (event : Json) (adopted answered : Option SealedRecord) (settled after : World)
      (hadopts : adopted ≠ none → adopted = call.adopts w) (hsettles : Settles P w adopted settled)
      (hdelivers : Delivers P event settled after answered) : Moves P w call after
  | opened (sessionId : JsString) (hfresh : sessionId ∉ w.host.issued) :
      Moves P w call (w.withHost { w.host with
        issued := addTo w.host.issued sessionId
        sessions := w.host.sessions.set sessionId Session.new })
  | closed (sessionId : JsString) (host : AuditHost)
      (hnoted : Noted { w.host with sessions := w.host.sessions.delete sessionId } host) :
      Moves P w call (w.withHost host)
  | toggled (available : Bool) : Moves P w call (w.withHost { w.host with persistenceAvailable := available })
  | resumed (capability : AuditCapabilityInput) (options : AuditHostOptions) (openSessions : List OpenSession)
      (config : HostConfig) (host : AuditHost) (hcall : call = .resume capability options openSessions)
      (hconfig : HostConfig.construct w.host.config.partition capability { options with repository := true } =
        .ok config)
      (hhost : AuditHost.resume P config w.stored openSessions = .ok host) :
      Moves P w call (w.withHost host)

theorem adopted_eq_landed {P : Primitives} {w w' : World} {adopted : Option SealedRecord}
    (h : Settles P w adopted w') : adopted = none ∨ adopted = w.landed := by
  cases h with
  | kept => exact Or.inl rfl
  | confirmed => exact Or.inl rfl
  | adopted record digest sessionId hlanded => exact Or.inr (landed_eq_some.mpr hlanded).symm

section

variable {P : Primitives} (answers : Answers) (event : Json) (expected : Option JsString) {w : World}

theorem handleAttempt_delivers (expired : Bool) (hstored : ∀ record ∈ w.stored, Admissible record.event) :
    ∃ adopted settled answered, Settles P w adopted settled ∧
      (adopted ≠ none → adopted = Call.adopts w (.attempt answers event expected expired)) ∧
      Delivers P event settled (handleAttempt P answers event expected expired w).1 answered ∧
      Answered answered (handleAttempt P answers event expected expired w).2 := by
  unfold handleAttempt
  cases expired with
  | true => exact ⟨none, w, none, .kept, by simp, .noted w.host (.refl _), by simp [Answered]⟩
  | false =>
      cases hk : chainKnown P answers w with
      | mk settled result =>
          obtain ⟨adopted, hsettles, hreads, hknown⟩ := chainKnown_settles hstored hk
          have hadopts : adopted ≠ none →
              adopted = Call.adopts w (.attempt answers event expected false) := by
            intro hne
            simp only [Call.adopts, hreads hne]
            exact (adopted_eq_landed hsettles).resolve_left hne
          simp only [Bool.false_eq_true, ite_false]
          rcases result with e | b
          · exact ⟨adopted, settled, none, hsettles, hadopts, .noted _ (.refl _), by simp [Answered]⟩
          · cases b with
            | false => exact ⟨adopted, settled, none, hsettles, hadopts, .noted _ (.refl _), by simp [Answered]⟩
            | true =>
                obtain ⟨answered, hdelivers, hanswered⟩ := judgeAttempt_delivers (P := P) answers event
                  expected (hknown rfl)
                exact ⟨adopted, settled, answered, hsettles, hadopts, hdelivers, hanswered⟩

theorem recordOutcome_delivers (hstored : ∀ record ∈ w.stored, Admissible record.event) :
    ∃ adopted settled answered, Settles P w adopted settled ∧
      (adopted ≠ none → adopted = Call.adopts w (.outcome answers event expected)) ∧
      Delivers P event settled (recordOutcome P answers event expected w).1 answered := by
  unfold recordOutcome
  cases hobj : event.isObject with
  | false =>
      exact ⟨none, w, none, .kept, by simp, .noted _ (.flag _ _ _ _)⟩
  | true =>
      cases hk : chainKnown P answers w with
      | mk settled result =>
          obtain ⟨adopted, hsettles, hreads, hknown⟩ := chainKnown_settles hstored hk
          have hadopts : adopted ≠ none → adopted = Call.adopts w (.outcome answers event expected) := by
            intro hne
            simp only [Call.adopts, hreads hne, hobj]
            exact (adopted_eq_landed hsettles).resolve_left hne
          simp only [Bool.not_true, Bool.false_eq_true, ite_false]
          rcases result with e | b
          · exact ⟨adopted, settled, none, hsettles, hadopts, .noted _ (.refl _)⟩
          · cases b with
            | false => exact ⟨adopted, settled, none, hsettles, hadopts, .noted _ (.refl _)⟩
            | true =>
                obtain ⟨answered, hdelivers⟩ := judgeOutcome_delivers (P := P) answers event expected (hknown rfl)
                exact ⟨adopted, settled, answered, hsettles, hadopts, hdelivers⟩

end

theorem noted_flags (host : AuditHost) (ids : List JsString) (kind : Tier1Code) (detail : JsString → AnomalyDetail) :
    Noted host (ids.foldl (fun host id => host.flag id kind (detail id)) host) := by
  induction ids generalizing host with
  | nil => exact .refl host
  | cons id rest ih => exact (Noted.flag host id kind (detail id)).trans (ih _)

theorem foldl_flag_anomalies (ids : List JsString) (kind : Tier1Code) (detail : JsString → AnomalyDetail)
    (host : AuditHost) : (ids.foldl (fun host id => host.flag id kind (detail id)) host).anomalies =
      host.anomalies ++ ids.map fun id => ⟨id, kind, detail id⟩ := by
  induction ids generalizing host with
  | nil => simp
  | cons id rest ih =>
      rw [List.foldl_cons, ih]
      simp [AuditHost.flag]

theorem foldl_flag_sessions (ids : List JsString) (kind : Tier1Code) (detail : JsString → AnomalyDetail)
    (host : AuditHost) : (ids.foldl (fun host id => host.flag id kind (detail id)) host).sessions = host.sessions := by
  induction ids generalizing host with
  | nil => rfl
  | cons id rest ih => exact ih _

theorem closeSession_noted (host : AuditHost) (sessionId : JsString) (session : Session)
    (hopen : host.sessions.get sessionId = some session) :
    Noted { host with sessions := host.sessions.delete sessionId } (host.closeSession sessionId) := by
  simp only [AuditHost.closeSession, hopen]
  exact noted_flags _ _ _ _

theorem construct_fields {partition : JsString} {input : AuditCapabilityInput} {options : AuditHostOptions}
    {config : HostConfig} (h : HostConfig.construct partition input options = .ok config) :
    config.repository = options.repository ∧ config.capability.level = input.level.getD .L1 := by
  unfold HostConfig.construct at h
  dsimp only at h
  split at h
  · cases h
  · split at h
    · cases h
    · split at h
      · cases h
      · split at h
        · cases h
        · simp only [Except.ok.injEq] at h
          subst h
          exact ⟨rfl, rfl⟩

theorem perform_moves {P : Primitives} {w : World} (call : Call)
    (hstored : ∀ record ∈ w.stored, Admissible record.event) : Moves P w call (perform P w call).1 := by
  cases call with
  | openSession sessionId =>
      simp only [perform, World.replying, AuditHost.openSession]
      by_cases hissued : sessionId ∈ w.host.issued
      · simp only [if_pos hissued]
        exact .stayed
      · simp only [if_neg hissued]
        exact .opened sessionId hissued
  | closeSession sessionId =>
      simp only [perform]
      cases hopen : w.host.sessions.get sessionId with
      | none =>
          simp only [AuditHost.closeSession, hopen]
          exact .stayed
      | some session => exact .closed sessionId _ (closeSession_noted w.host sessionId session hopen)
  | attempt answers event expected expired =>
      obtain ⟨adopted, settled, answered, hsettles, hadopts, hdelivers, -⟩ :=
        handleAttempt_delivers (P := P) answers event expected expired hstored
      have hworld : (perform P w (.attempt answers event expected expired)).1 =
          (handleAttempt P answers event expected expired w).1 := by
        simp only [perform, World.replying]
        split <;> simp_all
      rw [hworld]
      exact .delivered event adopted answered settled _ hadopts hsettles hdelivers
  | outcome answers event expected =>
      obtain ⟨adopted, settled, answered, hsettles, hadopts, hdelivers⟩ :=
        recordOutcome_delivers (P := P) answers event expected hstored
      have hworld : (perform P w (.outcome answers event expected)).1 =
          (recordOutcome P answers event expected w).1 := by
        simp only [perform, World.replying]
        split <;> simp_all
      rw [hworld]
      exact .delivered event adopted answered settled _ hadopts hsettles hdelivers
  | setPersistenceAvailable available => exact .toggled available
  | resume capability options openSessions =>
      simp only [perform, World.resume]
      cases hc : HostConfig.construct w.host.config.partition capability { options with repository := true } with
      | error e =>
          simp only [bind, Except.bind]
          exact .stayed
      | ok config =>
          simp only [bind, Except.bind]
          cases hr : AuditHost.resume P config w.stored openSessions with
          | error e => exact .stayed
          | ok host => exact .resumed capability options openSessions config host rfl hc hr

end AuditableMcp
