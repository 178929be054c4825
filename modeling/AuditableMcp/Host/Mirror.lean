import AuditableMcp.Host.Proper

-- Two runs of the same calls, on hosts that decide alike.
namespace AuditableMcp

-- Two worlds whose hosts are alike and whose repositories hold the same records.
structure Abreast (L : Likeness) (base : Base L) (settled : Prop) (first second : World) : Prop where
  hosts : Alike L base settled first.host second.host
  stored : first.stored = second.stored

theorem Together.split {α σ : Type} {R : σ → σ → Prop} {first second : σ × α} (h : Together R first second) :
    ∃ s t result, first = (s, result) ∧ second = (t, result) ∧ R s t := by
  obtain ⟨s, result⟩ := first
  obtain ⟨t, answer⟩ := second
  obtain ⟨hstates, rfl⟩ := h
  exact ⟨s, t, result, rfl, rfl, hstates⟩

theorem replying_together {α : Type} {R : World → World → Prop} {first second : World × Except JsError α}
    (h : Together R first second) (reply : α → Reply) :
    Together R (World.replying reply first) (World.replying reply second) := by
  obtain ⟨s, t, result, rfl, rfl, hstates⟩ := h.split
  cases result with
  | error e => exact ⟨hstates, rfl⟩
  | ok value => exact ⟨hstates, rfl⟩

instance : Std.Total AuditHost.unitsOrder := ⟨fun a b => JsString.unitsLe_total a.units b.units⟩

instance : IsTrans JsString AuditHost.unitsOrder := ⟨fun _ _ _ hab hbc => JsString.unitsLe_trans hab hbc⟩

instance : Std.Antisymm AuditHost.unitsOrder :=
  ⟨fun a b hab hba => by
    cases a
    cases b
    exact congrArg JsString.mk (JsString.unitsLe_antisymm hab hba)⟩

theorem insertionSort_eq_of_perm {a b : List JsString} (h : a.Perm b) :
    a.insertionSort AuditHost.unitsOrder = b.insertionSort AuditHost.unitsOrder := by
  have hsorted := (List.perm_insertionSort AuditHost.unitsOrder a).trans
    (h.trans (List.perm_insertionSort AuditHost.unitsOrder b).symm)
  exact hsorted.eq_of_pairwise' (List.pairwise_insertionSort _ a) (List.pairwise_insertionSort _ b)

section

variable {L : Likeness} {base : Base L} {settled : Prop} {first second : AuditHost} {w v : World} {P : Primitives}

theorem prepare_alike (h : Alike L base settled first second) (answers : Answers) (event : Json) :
    prepare P answers event first = prepare P answers event second := by
  have hseal (hostTs : Option Json) : first.ledger.sealRecord P event hostTs =
      second.ledger.sealRecord P event hostTs := by
    simp only [Ledger.sealRecord, Ledger.recordOf, h.count, h.tailHash]
  unfold prepare
  rw [hseal, h.config]

theorem persist_abreast (h : Abreast L base settled w v) (answers : Answers) (record : SealedRecord) :
    persist answers w record = persist answers v record := by
  unfold persist
  rw [h.hosts.config, h.stored]

theorem remember_alike (h : Alike L base settled first second) (record : SealedRecord) :
    (∃ e, first.remember P record = .error e ∧ second.remember P record = .error e) ∨
      ∃ left right, first.remember P record = .ok left ∧ second.remember P record = .ok right ∧
        Alike L base settled left right := by
  unfold AuditHost.remember
  cases digestOf P record.event with
  | error e => exact Or.inl ⟨e, rfl, rfl⟩
  | ok digest => exact Or.inr ⟨_, _, rfl, rfl, h.noteSealed record digest⟩

theorem sealEvent_abreast (h : Abreast L base settled w v) (answers : Answers) (event : Json) :
    Together (Abreast L base settled) (sealEvent P answers event w) (sealEvent P answers event v) := by
  unfold sealEvent
  rw [prepare_alike h.hosts]
  cases prepare P answers event v.host with
  | error e => exact ⟨h, rfl⟩
  | ok prepared =>
      cases prepared with
      | none => exact ⟨h, rfl⟩
      | some record =>
          dsimp only
          rw [persist_abreast h]
          obtain ⟨stored, threw⟩ := persist answers v record
          cases threw with
          | true => exact ⟨⟨{ h.hosts with tailUncertain := fun _ => rfl }, rfl⟩, rfl⟩
          | false =>
              rcases remember_alike (P := P) (h.hosts.commit record) record with
                ⟨e, hf, hs⟩ | ⟨left, right, hf, hs, halike⟩
              · simp only [hf, hs]
                exact ⟨⟨h.hosts.commit record, rfl⟩, rfl⟩
              · simp only [hf, hs]
                exact ⟨⟨halike, rfl⟩, rfl⟩

theorem sealAttempt_abreast (h : Abreast L base settled w v) (answers : Answers) (event : Json) (sessionId : JsString) :
    Together (Abreast L base settled) (sealAttempt P answers event sessionId w)
      (sealAttempt P answers event sessionId v) := by
  obtain ⟨w', v', result, hf, hs, hworlds⟩ := (sealEvent_abreast (P := P) h answers event).split
  unfold sealAttempt
  rw [hf, hs]
  rcases result with e | (_ | record)
  · exact ⟨hworlds, rfl⟩
  · exact ⟨hworlds, rfl⟩
  · exact ⟨⟨(hworlds.hosts.decide event sessionId).acceptId sessionId _, hworlds.stored⟩, rfl⟩

theorem decideAttempt_abreast (h : Abreast L base settled w v) (answers : Answers) (event : Json)
    (sessionId : JsString) : Together (Abreast L base settled) (decideAttempt P answers event sessionId w)
      (decideAttempt P answers event sessionId v) := by
  unfold decideAttempt
  rw [h.hosts.sealedAttempts]
  split
  · split
    · exact ⟨h, rfl⟩
    · exact ⟨⟨h.hosts.acceptId sessionId _, h.stored⟩, rfl⟩
    · exact ⟨⟨h.hosts.refuseAttempt event sessionId _, h.stored⟩, rfl⟩
  · rw [h.hosts.hasTerminal]
    split
    · exact ⟨⟨h.hosts.refuseAttempt event sessionId _, h.stored⟩, rfl⟩
    · obtain ⟨later, other, result, hf, hs, halike⟩ := (h.hosts.checkReplay (P := P) event sessionId).split
      rw [hf, hs]
      cases result with
      | some reason => exact ⟨⟨(halike.rejectId _).decide event sessionId, h.stored⟩, rfl⟩
      | none =>
          dsimp only
          rw [h.hosts.persistenceAvailable]
          split
          · exact ⟨h, rfl⟩
          · exact sealAttempt_abreast h answers event sessionId

theorem judgeAttempt_abreast (h : Abreast L base settled w v) (answers : Answers) (event : Json)
    (expected : Option JsString) : Together (Abreast L base settled) (judgeAttempt P answers event expected w)
      (judgeAttempt P answers event expected v) := by
  obtain ⟨later, other, result, hf, hs, halike⟩ := (h.hosts.admitEvent (P := P) event expected true).split
  unfold judgeAttempt
  rw [hf, hs]
  rcases result with e | (sessionId | reason)
  · exact ⟨⟨halike, h.stored⟩, rfl⟩
  · obtain ⟨noted, othernoted, result, hf, hs, hnoted⟩ := (halike.verifySignature (P := P) answers event sessionId).split
    have hworlds : Abreast L base settled (w.withHost noted) (v.withHost othernoted) := ⟨hnoted, h.stored⟩
    dsimp only
    rw [hf, hs]
    rcases result with e | (_ | reason)
    · exact ⟨⟨hnoted, h.stored⟩, rfl⟩
    · exact decideAttempt_abreast hworlds answers event sessionId
    · exact ⟨⟨hnoted.rejectId _, h.stored⟩, rfl⟩
  · exact ⟨⟨halike, h.stored⟩, rfl⟩

theorem sealOutcome_abreast (h : Abreast L base settled w v) (answers : Answers) (event : Json)
    (sessionId digest : JsString) : Together (Abreast L base settled)
      (sealOutcome P answers event sessionId digest w) (sealOutcome P answers event sessionId digest v) := by
  unfold sealOutcome
  rw [h.hosts.persistenceAvailable]
  split
  · exact ⟨h, rfl⟩
  · obtain ⟨w', v', result, hf, hs, hworlds⟩ := (sealEvent_abreast (P := P) h answers event).split
    rw [hf, hs]
    rcases result with e | (_ | record)
    · exact ⟨hworlds, rfl⟩
    · exact ⟨hworlds, rfl⟩
    · exact ⟨⟨(hworlds.hosts.decide event sessionId).setTerminal sessionId _ digest, hworlds.stored⟩, rfl⟩

-- The text of an orphaned outcome tells whether its id was rejected, which is seen only
-- where the memory of refusals agrees.
theorem orphaned_alike (h : Alike L base settled first second) (id outcome : JsString) :
    Alike L base settled
      (first.flag id .orphanedOutcome (.text (JsString.ofString "outcome=" ++ outcome ++
        (if id ∈ first.rejectedIds then JsString.ofString " for a rejected id"
         else JsString.ofString " without an accepted attempt"))))
      (second.flag id .orphanedOutcome (.text (JsString.ofString "outcome=" ++ outcome ++
        (if id ∈ second.rejectedIds then JsString.ofString " for a rejected id"
         else JsString.ofString " without an accepted attempt")))) := by
  apply h.flag
  rcases L.details with hmemory | hunseen
  · by_cases hr : id ∈ first.rejectedIds
    · rw [if_pos hr, if_pos ((h.rejectedIds hmemory id).mp hr)]
    · rw [if_neg hr, if_neg fun hs => hr ((h.rejectedIds hmemory id).mpr hs)]
  · exact hunseen _ _ _ _

theorem decideOutcome_abreast (h : Abreast L base settled w v) (answers : Answers) (event : Json)
    (sessionId : JsString) : Together (Abreast L base settled) (decideOutcome P answers event sessionId w)
      (decideOutcome P answers event sessionId v) := by
  have hterminal : ((w.host.sessions.get sessionId).bind fun session => session.terminal.get (eventId event)) =
      (v.host.sessions.get sessionId).bind fun session => session.terminal.get (eventId event) := by
    rcases h.hosts.session_cases sessionId with ⟨hf, hs⟩ | ⟨s, t, hf, hs, hbook⟩
    · rw [hf, hs]
    · rw [hf, hs, Option.bind_some, Option.bind_some, hbook.terminal]
  unfold decideOutcome
  cases digestOf P event with
  | error e => exact ⟨h, rfl⟩
  | ok digest =>
      dsimp only
      rw [hterminal]
      simp only [h.hosts.sealedDigests]
      split
      · exact ⟨h, rfl⟩
      · split
        · exact ⟨⟨(h.hosts.decide event sessionId).flagged _ _ _, h.stored⟩, rfl⟩
        · obtain ⟨later, other, result, hf, hs, halike⟩ := (h.hosts.checkReplay (P := P) event sessionId).split
          rw [hf, hs]
          cases result with
          | some reason => exact ⟨⟨halike, h.stored⟩, rfl⟩
          | none =>
              dsimp only
              rw [h.hosts.isAccepted]
              split
              · cases stringOfOption P (event.get Fields.OUTCOME) with
                | error e => exact ⟨⟨h.hosts.decide event sessionId, h.stored⟩, rfl⟩
                | ok outcome =>
                    have hrejected (host : AuditHost) : (host.decide event sessionId).rejectedIds = host.rejectedIds := by
                      unfold AuditHost.decide
                      split
                      · obtain ⟨sessions, hfields⟩ := host.modifySession_fields sessionId
                          (AuditHost.decideNumber _ _)
                        rw [hfields]
                      · rfl
                    have horphan := orphaned_alike (h.hosts.decide event sessionId) (eventId event) outcome
                    rw [hrejected, hrejected] at horphan
                    exact ⟨⟨horphan, h.stored⟩, rfl⟩
              · exact sealOutcome_abreast h answers event sessionId digest

theorem judgeOutcome_abreast (h : Abreast L base settled w v) (answers : Answers) (event : Json)
    (expected : Option JsString) : Together (Abreast L base settled) (judgeOutcome P answers event expected w)
      (judgeOutcome P answers event expected v) := by
  obtain ⟨later, other, result, hf, hs, halike⟩ := (h.hosts.admitEvent (P := P) event expected false).split
  unfold judgeOutcome
  rw [hf, hs]
  rcases result with e | (sessionId | reason)
  · exact ⟨⟨halike, h.stored⟩, rfl⟩
  · obtain ⟨noted, othernoted, result, hf, hs, hnoted⟩ := (halike.verifySignature (P := P) answers event sessionId).split
    have hworlds : Abreast L base settled (w.withHost noted) (v.withHost othernoted) := ⟨hnoted, h.stored⟩
    dsimp only
    rw [hf, hs]
    rcases result with e | (_ | reason)
    · exact ⟨⟨hnoted, h.stored⟩, rfl⟩
    · exact decideOutcome_abreast hworlds answers event sessionId
    · exact ⟨⟨hnoted, h.stored⟩, rfl⟩
  · exact ⟨⟨halike, h.stored⟩, rfl⟩

theorem tailUnchanged_alike (h : Alike L base settled first second) (tail : Option SealedRecord) :
    tailUnchanged tail first.ledger = tailUnchanged tail second.ledger := by
  unfold tailUnchanged Ledger.digest
  rw [h.count, h.tailHash]

theorem Alike.settling (h : Alike L base settled first second) (later : Prop) :
    Alike L base later { first with tailUncertain := false } { second with tailUncertain := false } :=
  { h with tailUncertain := fun _ => rfl }

theorem adopt_alike (h : Alike L base settled first second) (tail : SealedRecord) :
    Together (Alike L base settled) (adopt P first tail) (adopt P second tail) := by
  have hcommitted := h.commit tail
  unfold adopt
  rcases remember_alike (P := P) hcommitted tail with ⟨e, hf, hs⟩ | ⟨left, right, hf, hs, halike⟩
  · simp only [hf, hs]
    exact ⟨hcommitted, rfl⟩
  · simp only [hf, hs]
    cases stringOfOption P (tail.event.get Fields.SESSION_ID) with
    | error e => exact ⟨halike, rfl⟩
    | ok sessionId =>
        dsimp only
        by_cases hkind : isAttempted tail.event = true
        · rw [if_pos hkind, if_pos hkind]
          exact ⟨(halike.acceptId sessionId _).settling settled, rfl⟩
        · rw [if_neg hkind, if_neg hkind]
          exact ⟨halike.settling settled, rfl⟩

theorem settleTail_abreast (h : Abreast L base settled w v) (answer : LoadTail) :
    Together (Abreast L base settled) (settleTail P answer w) (settleTail P answer v) := by
  unfold settleTail
  cases answer with
  | repositoryError => exact ⟨h, rfl⟩
  | fails error => exact ⟨h, rfl⟩
  | reads =>
      have hdigest : w.host.ledger.digest = v.host.ledger.digest := h.hosts.tailHash
      simp only [h.stored, tailUnchanged_alike h.hosts, h.hosts.count, hdigest]
      by_cases hsame : tailUnchanged v.stored.getLast? v.host.ledger = true
      · rw [if_pos hsame, if_pos hsame]
        exact ⟨⟨h.hosts.settling settled, rfl⟩, rfl⟩
      · rw [if_neg hsame, if_neg hsame]
        cases v.stored.getLast? with
        | none => exact ⟨h, rfl⟩
        | some record =>
            dsimp only
            split
            · exact ⟨h, rfl⟩
            · obtain ⟨left, right, result, hf, hs, halike⟩ := (adopt_alike (P := P) h.hosts record).split
              rw [hf, hs]
              exact ⟨⟨halike, rfl⟩, rfl⟩

theorem chainKnown_abreast (h : Abreast L base True w v) (answers : Answers) :
    Together (Abreast L base True) (chainKnown P answers w) (chainKnown P answers v) := by
  unfold chainKnown
  rw [h.hosts.tailUncertain trivial, h.hosts.config]
  split
  · exact ⟨h, rfl⟩
  · exact settleTail_abreast h answers.loadTail

-- Once both have settled their tails alike, they decide alike.
theorem handleAttempt_settled {answers : Answers} (event : Json) (expected : Option JsString)
    (hk : Together (Abreast L base settled) (chainKnown P answers w) (chainKnown P answers v)) :
    Together (Abreast L base settled) (handleAttempt P answers event expected false w)
      (handleAttempt P answers event expected false v) := by
  obtain ⟨w', v', result, hf, hs, hworlds⟩ := hk.split
  unfold handleAttempt
  rw [hf, hs]
  rcases result with e | (_ | _)
  · exact ⟨hworlds, rfl⟩
  · exact ⟨hworlds, rfl⟩
  · exact judgeAttempt_abreast hworlds answers event expected

theorem recordOutcome_settled {answers : Answers} {event : Json} (expected : Option JsString)
    (hobject : event.isObject = true)
    (hk : Together (Abreast L base settled) (chainKnown P answers w) (chainKnown P answers v)) :
    Together (Abreast L base settled) (recordOutcome P answers event expected w)
      (recordOutcome P answers event expected v) := by
  obtain ⟨w', v', result, hf, hs, hworlds⟩ := hk.split
  unfold recordOutcome
  rw [hobject, hf, hs]
  rcases result with e | (_ | _)
  · exact ⟨hworlds, rfl⟩
  · exact ⟨hworlds, rfl⟩
  · exact judgeOutcome_abreast hworlds answers event expected

theorem recordOutcome_unread {event : Json} (h : Abreast L base settled w v) (answers : Answers)
    (expected : Option JsString) (hobject : event.isObject = false) :
    Together (Abreast L base settled) (recordOutcome P answers event expected w)
      (recordOutcome P answers event expected v) := by
  unfold recordOutcome
  rw [hobject]
  exact ⟨⟨h.hosts.flagged _ _ _, h.stored⟩, rfl⟩

theorem handleAttempt_abreast (h : Abreast L base True w v) (answers : Answers) (event : Json)
    (expected : Option JsString) (expired : Bool) : Together (Abreast L base True)
      (handleAttempt P answers event expected expired w) (handleAttempt P answers event expected expired v) := by
  cases expired with
  | true => exact ⟨h, rfl⟩
  | false => exact handleAttempt_settled event expected (chainKnown_abreast h answers)

theorem recordOutcome_abreast (h : Abreast L base True w v) (answers : Answers) (event : Json)
    (expected : Option JsString) : Together (Abreast L base True)
      (recordOutcome P answers event expected w) (recordOutcome P answers event expected v) := by
  cases hobject : event.isObject with
  | false => exact recordOutcome_unread h answers expected hobject
  | true => exact recordOutcome_settled expected hobject (chainKnown_abreast h answers)

theorem foldl_flag_alike (h : Alike L base settled first second) (ids : List JsString) (kind : Tier1Code)
    (detail : JsString → AnomalyDetail) : Alike L base settled
      (ids.foldl (fun host id => host.flag id kind (detail id)) first)
      (ids.foldl (fun host id => host.flag id kind (detail id)) second) := by
  induction ids generalizing first second with
  | nil => exact h
  | cons id rest ih => exact ih (h.flagged id kind (detail id))

theorem Alike.closeSession (h : Alike L base settled first second) (sessionId : JsString) :
    Alike L base settled (first.closeSession sessionId) (second.closeSession sessionId) := by
  unfold AuditHost.closeSession
  rcases h.session_cases sessionId with ⟨hf, hs⟩ | ⟨s, t, hf, hs, hbook⟩
  · rw [hf, hs]
    exact h
  · have hclosed (id : JsString) : t.terminal.has id = s.terminal.has id := by
      unfold OrderedMap.has
      rw [hbook.terminal]
    have hperm := hbook.accepted.filter fun id => !s.terminal.has id
    have hdeleted : ∀ id, Option.Rel (SameBook L.bounds) ((first.sessions.delete sessionId).get id)
        ((second.sessions.delete sessionId).get id) := by
      intro id
      rw [OrderedMap.get_delete, OrderedMap.get_delete]
      by_cases hid : sessionId = id
      · rw [if_pos hid, if_pos hid]
        exact .none
      · rw [if_neg hid, if_neg hid]
        exact h.sessions id
    rw [hf, hs]
    simp only [hclosed, insertionSort_eq_of_perm hperm]
    apply foldl_flag_alike
    exact { h with
      distinct := OrderedMap.nodup_keys_delete h.distinct sessionId
      sessions := hdeleted }

theorem openSession_alike (h : Alike L base settled first second) (hmemory : L.memory) (sessionId : JsString) :
    Together (Alike L base settled) (first.openSession sessionId) (second.openSession sessionId) := by
  unfold AuditHost.openSession
  by_cases hissued : sessionId ∈ first.issued
  · rw [if_pos hissued, if_pos ((h.issued hmemory sessionId).mp hissued)]
    exact ⟨h, rfl⟩
  · rw [if_neg hissued, if_neg fun hs => hissued ((h.issued hmemory sessionId).mpr hs)]
    have hids (_ : L.memory) (id : JsString) :
        id ∈ addTo first.issued sessionId ↔ id ∈ addTo second.issued sessionId := by
      rw [mem_addTo, mem_addTo, h.issued hmemory id]
    have hopened : ∀ id, Option.Rel (SameBook L.bounds) ((first.sessions.set sessionId Session.new).get id)
        ((second.sessions.set sessionId Session.new).get id) := by
      intro id
      rw [OrderedMap.get_set, OrderedMap.get_set]
      by_cases hid : sessionId = id
      · rw [if_pos hid, if_pos hid]
        exact .some (.refl Session.proper_new)
      · rw [if_neg hid, if_neg hid]
        exact h.sessions id
    exact ⟨{ h with
      issued := hids
      distinct := OrderedMap.nodup_keys_set h.distinct sessionId Session.new
      sessions := hopened }, rfl⟩

-- The calls that neither append nor read the tail keep both worlds as they are to each other.
theorem perform_openSession_abreast (h : Abreast L base settled w v) (hmemory : L.memory) (sessionId : JsString) :
    Together (Abreast L base settled) (perform P w (.openSession sessionId)) (perform P v (.openSession sessionId)) := by
  obtain ⟨left, right, result, hf, hs, halike⟩ := (openSession_alike h.hosts hmemory sessionId).split
  have hopened : Together (Abreast L base settled) (w.withHost left, result) (v.withHost right, result) :=
    ⟨⟨halike, h.stored⟩, rfl⟩
  dsimp only [perform]
  rw [hf, hs]
  exact replying_together hopened Reply.opened

theorem perform_closeSession_abreast (h : Abreast L base settled w v) (sessionId : JsString) :
    Together (Abreast L base settled) (perform P w (.closeSession sessionId)) (perform P v (.closeSession sessionId)) :=
  ⟨⟨h.hosts.closeSession sessionId, h.stored⟩, rfl⟩

theorem perform_setPersistenceAvailable_abreast (h : Abreast L base settled w v) (available : Bool) :
    Together (Abreast L base settled) (perform P w (.setPersistenceAvailable available))
      (perform P v (.setPersistenceAvailable available)) :=
  ⟨⟨{ h.hosts with persistenceAvailable := rfl }, h.stored⟩, rfl⟩

-- Both restart from the same records, with one host, or neither restarts.
theorem perform_resume_cases (h : Abreast L base settled w v) (capability : AuditCapabilityInput)
    (options : AuditHostOptions) (openSessions : List OpenSession) :
    (∃ host, host.Proper ∧ perform P w (.resume capability options openSessions) = (w.withHost host, .done) ∧
      perform P v (.resume capability options openSessions) = (v.withHost host, .done)) ∨
    ∃ e, perform P w (.resume capability options openSessions) = (w, .threw e) ∧
      perform P v (.resume capability options openSessions) = (v, .threw e) := by
  dsimp only [perform, World.resume]
  rw [h.hosts.config, h.stored]
  cases hconfig : HostConfig.construct v.host.config.partition capability { options with repository := true } with
  | error e => exact Or.inr ⟨e, rfl, rfl⟩
  | ok config =>
      cases hhost : AuditHost.resume P config v.stored openSessions with
      | error e => exact Or.inr ⟨e, by simp [bind, Except.bind, hhost], by simp [bind, Except.bind, hhost]⟩
      | ok host =>
          refine Or.inl ⟨host, resume_proper hhost, ?_, ?_⟩
          · simp [bind, Except.bind, hhost, World.withHost, h.stored]
          · simp [bind, Except.bind, hhost, World.withHost]

end

section

variable {L : Likeness} {w v : World} {P : Primitives}

-- One call: hosts that decide alike answer it alike and still do afterwards.
theorem perform_abreast (h : Abreast L (.empty L) True w v) (hmemory : L.memory) (call : Call) :
    Together (Abreast L (.empty L) True) (perform P w call) (perform P v call) := by
  cases call with
  | openSession sessionId => exact perform_openSession_abreast h hmemory sessionId
  | closeSession sessionId => exact perform_closeSession_abreast h sessionId
  | attempt answers event expected expired =>
      exact replying_together (handleAttempt_abreast h answers event expected expired) Reply.attempt
  | outcome answers event expected => exact replying_together (recordOutcome_abreast h answers event expected) Reply.outcome
  | setPersistenceAvailable available => exact perform_setPersistenceAvailable_abreast h available
  | resume capability options openSessions =>
      rcases perform_resume_cases (P := P) h capability options openSessions with ⟨host, hproper, hf, hs⟩ | ⟨e, hf, hs⟩
      · rw [hf, hs]
        exact ⟨⟨.refl L True hproper, h.stored⟩, rfl⟩
      · rw [hf, hs]
        exact ⟨h, rfl⟩

end

end AuditableMcp
