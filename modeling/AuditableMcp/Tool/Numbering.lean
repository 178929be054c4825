import AuditableMcp.Library.Mutex
import AuditableMcp.Reference.Sessions
import AuditableMcp.Tool.Sections

-- The sessions that share one numbering, however their actions and disposals interleave.
namespace AuditableMcp

open Program

-- What a session that signs under a key is asked for.
inductive Signing (P : Primitives) (keyId : JsString) : Tool Unit → Prop where
  | action (session : AmcpSession) (hsigner : session.signer = some keyId) (spec : AuditSpec) :
      Signing P keyId (do let _ ← AmcpSession.action P session spec; return ())
  | dispose (session : AmcpSession) (hsigner : session.signer = some keyId) (action : AuditedAction) :
      Signing P keyId (do let _ ← asyncDispose session action; return ())
  | withAudit (session : AmcpSession) (hsigner : session.signer = some keyId) (spec : AuditSpec) :
      Signing P keyId (do let _ ← withAudit P session spec; return ())

theorem Signing.outward {P : Primitives} {keyId : JsString} {program : Tool Unit} (h : Signing P keyId program) :
    Outward keyId program := by
  cases h with
  | action session hsigner spec => exact (outward_action hsigner spec).bind fun _ => .pure ()
  | dispose session hsigner action => exact (outward_asyncDispose hsigner).bind fun _ => .pure ()
  | withAudit session hsigner spec => exact (outward_withAudit hsigner spec).bind fun _ => .pure ()

-- `SessionNumbering`: its `next` is read as a section begins, and set as its body ends. Each
-- thread is a session's, and signs under the session's key.
def SessionNumbering (P : Primitives) (keys : Nat → JsString) : Sharing SessionCall.Answer JsError Unit Nat where
  role
    | .enter => .enter id
    | .advance next => .access fun _ => ((), next)
    | .leave => .leave ()
    | .newId => .elsewhere
    | .now => .elsewhere
    | .randomValues _ => .elsewhere
    | .sign _ _ => .elsewhere
    | .sendAttempt _ => .elsewhere
    | .sendOutcome _ => .elsewhere
    | .verify _ _ _ => .elsewhere
    | .handler _ => .elsewhere
  told who := Stamps (keys who)
  starts who program := Signing P (keys who) program

-- An interleaving of sessions over a numbering started at `start`.
def Interleaves (P : Primitives) (keys : Nat → JsString) (start : Nat) (s : Sharing.State SessionCall.Answer JsError Unit Nat) : Prop :=
  (SessionNumbering P keys).Reaches (Sharing.State.new start) s

abbrev SessionLog := Sharing.Log SessionCall.Answer

abbrev SessionThread := Sharing.Thread SessionCall.Answer JsError Unit

-- The event a call delivered. What threw, and an attempt taken for misuse, delivered nothing.
def deliveryOf : Exchange SessionCall.Answer → Option Json
  | ⟨.sendAttempt _, some (.error (.usageError _))⟩ => none
  | ⟨.sendAttempt event, some _⟩ => some event
  | ⟨.sendOutcome event, some (.ok _)⟩ => some event
  | _ => none

def deliveries (log : SessionLog) : List Json := log.filterMap fun entry => deliveryOf entry.2

def signerSeqs (events : List Json) : List (Option Json) := events.map fun event => event.get Fields.SIGNER_SEQ

-- The numbers from `start` on, as events carry them.
def numbersFrom (start count : Nat) : List (Option Json) :=
  (List.range' start count).map fun n => some (.num (.ofNat n))

def isAdvance : Exchange SessionCall.Answer → Bool
  | ⟨.advance _, _⟩ => true
  | _ => false

-- How many numbers were used up.
def advancesIn (trace : Trace) : Nat := trace.countP isAdvance

def consumed (log : SessionLog) : Nat := advancesIn (log.map Prod.snd)

-- A signer or an outcome that threw, or misuse of the SDK.
def didThrow : Exchange SessionCall.Answer → Bool
  | ⟨.sign _ _, some (.error _)⟩ => true
  | ⟨.sendOutcome _, some (.error _)⟩ => true
  | ⟨.sendAttempt _, some (.error (.usageError _))⟩ => true
  | _ => false

-- A transport that failed an attempt for another reason.
def didFault : Exchange SessionCall.Answer → Bool
  | ⟨.sendAttempt _, some (.error (.usageError _))⟩ => false
  | ⟨.sendAttempt _, some (.error _)⟩ => true
  | _ => false

-- What one thread has made of its sections: those it has left, and what it did since it
-- last entered one.
structure SectionLog where
  left : List Trace
  since : Trace

def SectionLog.note (book : SectionLog) (exchange : Exchange SessionCall.Answer) : SectionLog :=
  match exchange.call with
  | .enter => { book with since := [] }
  | .leave => ⟨book.left ++ [book.since], []⟩
  | _ => { book with since := book.since ++ [exchange] }

def sectionLog (trace : Trace) : SectionLog := trace.foldl SectionLog.note ⟨[], []⟩

def ownTrace (who : Nat) (log : SessionLog) : Trace :=
  log.filterMap fun entry => if entry.1 = who then some entry.2 else none

def sectionsOf (who : Nat) (log : SessionLog) : SectionLog := sectionLog (ownTrace who log)

-- A section in which something threw used no number, and one with a fault used one.
structure Accounted (trace : Trace) : Prop where
  threw : (∃ exchange ∈ trace, didThrow exchange = true) → advancesIn trace = 0
  faulted : (∃ exchange ∈ trace, didFault exchange = true) → advancesIn trace = 1

section Logs

variable {log : SessionLog} {who other : Nat} {exchange : Exchange SessionCall.Answer}

theorem deliveries_append : deliveries (log ++ [(who, exchange)]) = deliveries log ++ (deliveryOf exchange).toList := by
  cases h : deliveryOf exchange <;> simp [deliveries, h]

theorem consumed_append : consumed (log ++ [(who, exchange)]) = consumed log + if isAdvance exchange then 1 else 0 := by
  simp [consumed, advancesIn, List.countP_append, List.countP_cons]

theorem sectionsOf_append_self :
    sectionsOf who (log ++ [(who, exchange)]) = (sectionsOf who log).note exchange := by
  simp [sectionsOf, sectionLog, ownTrace]

theorem sectionsOf_append_of_ne (h : who ≠ other) :
    sectionsOf other (log ++ [(who, exchange)]) = sectionsOf other log := by
  simp [sectionsOf, ownTrace, h]

-- A call that neither enters nor leaves a section.
def Inside (exchange : Exchange SessionCall.Answer) : Prop := exchange.call ≠ .enter ∧ exchange.call ≠ .leave

theorem SectionLog.note_inside (book : SectionLog) (h : Inside exchange) :
    book.note exchange = ⟨book.left, book.since ++ [exchange]⟩ := by
  obtain ⟨call, answer⟩ := exchange
  cases call with
  | enter => exact absurd rfl h.1
  | leave => exact absurd rfl h.2
  | _ => rfl

end Logs

-- The books after so many deliveries and so many numbers used up.
structure Tally (keys : Nat → JsString) (start : Nat) (log : SessionLog) (sent usedUp : Nat) : Prop where
  keyed : ∀ entry ∈ log, ∀ event, deliveryOf entry.2 = some event → event.get Fields.KEY_ID = some (.str (keys entry.1))
  numbers : signerSeqs (deliveries log) = numbersFrom start sent
  consumed : consumed log = usedUp
  accounted : ∀ who, ∀ trace ∈ (sectionsOf who log).left, Accounted trace

section Tallies

variable {keys : Nat → JsString} {start sent usedUp : Nat} {log : SessionLog} {who : Nat} {exchange : Exchange SessionCall.Answer}

theorem tally_nil (keys : Nat → JsString) (start : Nat) : Tally keys start [] 0 0 := ⟨by simp, rfl, rfl, by simp [sectionsOf, sectionLog, ownTrace]⟩

-- Inside a section, the books of the sections left stay as they are.
theorem accounted_inside (h : ∀ other, ∀ trace ∈ (sectionsOf other log).left, Accounted trace)
    (hinside : exchange.call ≠ .leave) :
    ∀ other, ∀ trace ∈ (sectionsOf other (log ++ [(who, exchange)])).left, Accounted trace := by
  intro other trace htrace
  by_cases hwho : who = other
  · subst hwho
    rw [sectionsOf_append_self] at htrace
    obtain ⟨call, answer⟩ := exchange
    cases call with
    | leave => exact absurd rfl hinside
    | _ => exact h who trace htrace
  · rw [sectionsOf_append_of_ne hwho] at htrace
    exact h other trace htrace

theorem keyed_append (h : ∀ entry ∈ log, ∀ event, deliveryOf entry.2 = some event →
      event.get Fields.KEY_ID = some (.str (keys entry.1)))
    (hlast : ∀ event, deliveryOf exchange = some event → event.get Fields.KEY_ID = some (.str (keys who))) :
    ∀ entry ∈ log ++ [(who, exchange)], ∀ event, deliveryOf entry.2 = some event →
      event.get Fields.KEY_ID = some (.str (keys entry.1)) := by
  intro entry hmem event hevent
  rcases List.mem_append.mp hmem with hbefore | hnew
  · exact h entry hbefore event hevent
  · rw [List.mem_singleton.mp hnew] at hevent ⊢
    exact hlast event hevent

-- A call that delivers nothing and uses no number up.
theorem Tally.pass (h : Tally keys start log sent usedUp) (hdelivers : deliveryOf exchange = none)
    (hadvances : isAdvance exchange = false) (hinside : exchange.call ≠ .leave) :
    Tally keys start (log ++ [(who, exchange)]) sent usedUp where
  keyed := keyed_append h.keyed fun event hevent => by simp [hdelivers] at hevent
  numbers := by rw [deliveries_append, hdelivers, Option.toList_none, List.append_nil, h.numbers]
  consumed := by rw [consumed_append, hadvances, h.consumed]; rfl
  accounted := accounted_inside h.accounted hinside

theorem Tally.deliver (h : Tally keys start log sent usedUp) {event : Json} (hdelivers : deliveryOf exchange = some event)
    (hcarries : Carries (keys who) event (start + sent)) (hadvances : isAdvance exchange = false)
    (hinside : exchange.call ≠ .leave) : Tally keys start (log ++ [(who, exchange)]) (sent + 1) usedUp where
  keyed := keyed_append h.keyed fun other hother => by
    obtain rfl : event = other := Option.some.inj (hdelivers.symm.trans hother)
    exact hcarries.key
  numbers := by
    have hevent := hcarries.number
    have hnumbers : (deliveries log).map (fun event => event.get Fields.SIGNER_SEQ) = numbersFrom start sent := h.numbers
    simp [deliveries_append, hdelivers, signerSeqs, hnumbers, hevent, numbersFrom, List.range'_concat]
  consumed := by rw [consumed_append, hadvances, h.consumed]; rfl
  accounted := accounted_inside h.accounted hinside

theorem Tally.advance (h : Tally keys start log sent usedUp) {next : Nat} {answer : Option Unit} :
    Tally keys start (log ++ [(who, ⟨.advance next, answer⟩)]) sent (usedUp + 1) where
  keyed := keyed_append h.keyed fun event hevent => by cases hevent
  numbers := by rw [deliveries_append]; exact (List.append_nil _).symm ▸ h.numbers
  consumed := by rw [consumed_append, h.consumed]; rfl
  accounted := accounted_inside h.accounted (by simp)

theorem Tally.leave (h : Tally keys start log sent usedUp) {answer : Option Unit}
    (haccounted : Accounted (sectionsOf who log).since) :
    Tally keys start (log ++ [(who, ⟨.leave, answer⟩)]) sent usedUp where
  keyed := keyed_append h.keyed fun event hevent => by cases hevent
  numbers := by rw [deliveries_append]; exact (List.append_nil _).symm ▸ h.numbers
  consumed := by rw [consumed_append, h.consumed]; rfl
  accounted := by
    intro other trace htrace
    by_cases hwho : who = other
    · subst hwho
      rw [sectionsOf_append_self] at htrace
      rcases List.mem_append.mp htrace with hbefore | hlast
      · exact h.accounted who trace hbefore
      · rw [List.mem_singleton.mp hlast]
        exact haccounted
    · rw [sectionsOf_append_of_ne hwho] at htrace
      exact h.accounted other trace htrace

end Tallies

-- What the section that runs has done so far.
structure Since (trace : Trace) (mayThrow mayFault : Prop) (usedUp : Nat) : Prop where
  threw : (∃ exchange ∈ trace, didThrow exchange = true) → mayThrow
  faulted : (∃ exchange ∈ trace, didFault exchange = true) → mayFault
  used : advancesIn trace = usedUp

theorem Since.note {trace : Trace} {mayThrow mayFault moreThrow moreFault : Prop} {usedUp : Nat}
    {exchange : Exchange SessionCall.Answer} (h : Since trace mayThrow mayFault usedUp) (hthrow : mayThrow → moreThrow)
    (hfault : mayFault → moreFault) (hthrew : didThrow exchange = true → moreThrow)
    (hfaulted : didFault exchange = true → moreFault) (hadvances : isAdvance exchange = false) :
    Since (trace ++ [exchange]) moreThrow moreFault usedUp where
  threw := by
    rintro ⟨other, hmem, hother⟩
    rcases List.mem_append.mp hmem with hbefore | hlast
    · exact hthrow (h.threw ⟨other, hbefore, hother⟩)
    · exact hthrew (List.mem_singleton.mp hlast ▸ hother)
  faulted := by
    rintro ⟨other, hmem, hother⟩
    rcases List.mem_append.mp hmem with hbefore | hlast
    · exact hfault (h.faulted ⟨other, hbefore, hother⟩)
    · exact hfaulted (List.mem_singleton.mp hlast ▸ hother)
  used := by
    have hused : trace.countP isAdvance = usedUp := h.used
    simp [advancesIn, hused, hadvances]

-- The stage of the section that runs, and what the books say of it.
def Running (keys : Nat → JsString) (start value : Nat) (log : SessionLog) (since : Trace) : Stage → Prop
  | .outside => False
  | .numbered n => ∃ count, n = start + count ∧ value = n ∧ Tally keys start log count count ∧ Since since False False 0
  | .delivered n => ∃ count, n = start + count ∧ value = n ∧ Tally keys start log (count + 1) count ∧ Since since False True 0
  | .advanced n => ∃ count, n = start + count ∧ value = n + 1 ∧ Tally keys start log (count + 1) (count + 1) ∧
      Since since False True 1
  | .failed n => ∃ count, n = start + count ∧ value = n ∧ Tally keys start log count count ∧ Since since True False 0

-- Between sections the next number is the first that is not used up.
def numberingDiscipline (keys : Nat → JsString) (start : Nat) : Sharing.Discipline SessionCall.Answer JsError Unit Nat where
  idle who program := Outward (keys who) program
  free _ value log := ∃ count, value = start + count ∧ Tally keys start log count count
  held _ who value log rest := ∃ stage, rest.Follows (sections (keys who)) (fun stage _ => stage = .outside) stage ∧
    Running keys start value log (sectionsOf who log).since stage

theorem Since.advance {trace : Trace} {mayThrow mayFault : Prop} (h : Since trace mayThrow mayFault 0) (next : Nat)
    (answer : Option Unit) : Since (trace ++ [⟨.advance next, answer⟩]) mayThrow mayFault 1 where
  threw := by
    rintro ⟨exchange, hmem, hthrew⟩
    rcases List.mem_append.mp hmem with hbefore | hlast
    · exact h.threw ⟨exchange, hbefore, hthrew⟩
    · rw [List.mem_singleton.mp hlast] at hthrew
      cases hthrew
  faulted := by
    rintro ⟨exchange, hmem, hfaulted⟩
    rcases List.mem_append.mp hmem with hbefore | hlast
    · exact h.faulted ⟨exchange, hbefore, hfaulted⟩
    · rw [List.mem_singleton.mp hlast] at hfaulted
      cases hfaulted
  used := by
    have hused : trace.countP isAdvance = 0 := h.used
    simp [advancesIn, hused, isAdvance]

section Discipline

variable {P : Primitives} {keys : Nat → JsString} {start value : Nat} {log : SessionLog} {who : Nat} {stage : Stage}

-- A call of another thread leaves the section that runs as it was.
theorem Running.pass {since : Trace} {exchange : Exchange SessionCall.Answer} (h : Running keys start value log since stage)
    (hdelivers : deliveryOf exchange = none) (hadvances : isAdvance exchange = false) (hinside : exchange.call ≠ .leave) :
    Running keys start value (log ++ [(who, exchange)]) since stage := by
  cases stage with
  | outside => exact h
  | numbered n =>
      obtain ⟨count, hn, hvalue, htally, hsince⟩ := h
      exact ⟨count, hn, hvalue, htally.pass hdelivers hadvances hinside, hsince⟩
  | delivered n =>
      obtain ⟨count, hn, hvalue, htally, hsince⟩ := h
      exact ⟨count, hn, hvalue, htally.pass hdelivers hadvances hinside, hsince⟩
  | advanced n =>
      obtain ⟨count, hn, hvalue, htally, hsince⟩ := h
      exact ⟨count, hn, hvalue, htally.pass hdelivers hadvances hinside, hsince⟩
  | failed n =>
      obtain ⟨count, hn, hvalue, htally, hsince⟩ := h
      exact ⟨count, hn, hvalue, htally.pass hdelivers hadvances hinside, hsince⟩

-- Outside a section nothing is delivered and no number is used up.
theorem outside_passes {keyId : JsString} {c : SessionCall} (hallowed : Stage.outside.allows keyId c) (hnot : c ≠ .enter) (x : c.Answer) :
    deliveryOf ⟨c, some x⟩ = none ∧ isAdvance ⟨c, some x⟩ = false ∧ c ≠ .leave ∧ Stage.outside.next c x = .outside := by
  cases c with
  | newId => exact ⟨rfl, rfl, by simp, rfl⟩
  | randomValues count => exact ⟨rfl, rfl, by simp, rfl⟩
  | verify hostKeyId hostSignature payload => exact ⟨rfl, rfl, by simp, rfl⟩
  | handler accept => exact ⟨rfl, rfl, by simp, rfl⟩
  | enter => exact absurd rfl hnot
  | _ => exact absurd hallowed id

-- What the transport is given inside a section, and what it makes of it.
theorem Running.within {c : SessionCall} {x : c.Answer} (h : Running keys start value log (sectionsOf who log).since stage)
    (hallowed : stage.allows (keys who) c) (helsewhere : (SessionNumbering P keys).role c = .elsewhere) :
    Running keys start value (log ++ [(who, ⟨c, some x⟩)]) (sectionsOf who (log ++ [(who, ⟨c, some x⟩)])).since
      (stage.next c x) := by
  cases stage with
  | outside => exact absurd h id
  | numbered n =>
      obtain ⟨count, rfl, rfl, htally, hsince⟩ := h
      cases c with
      | now =>
          rw [sectionsOf_append_self, SectionLog.note_inside _ ⟨by simp, by simp⟩]
          have hpass : Tally keys start (log ++ [(who, ⟨.now, some x⟩)]) count count := htally.pass rfl rfl (by simp)
          cases x with
          | ok ts => exact ⟨count, rfl, rfl, hpass, hsince.note id id (by simp [didThrow]) (by simp [didFault]) rfl⟩
          | error e => exact ⟨count, rfl, rfl, hpass, hsince.note False.elim id (by simp) (by simp [didFault]) rfl⟩
      | sign event signerSeq =>
          rw [sectionsOf_append_self, SectionLog.note_inside _ ⟨by simp, by simp⟩]
          have hpass : Tally keys start (log ++ [(who, ⟨.sign event signerSeq, some x⟩)]) count count :=
            htally.pass rfl rfl (by simp)
          cases x with
          | ok signed => exact ⟨count, rfl, rfl, hpass, hsince.note id id (by simp [didThrow]) (by simp [didFault]) rfl⟩
          | error e => exact ⟨count, rfl, rfl, hpass, hsince.note False.elim id (by simp) (by simp [didFault]) rfl⟩
      | sendAttempt event =>
          rw [sectionsOf_append_self, SectionLog.note_inside _ ⟨by simp, by simp⟩]
          cases x with
          | ok response =>
              exact ⟨count, rfl, rfl, htally.deliver rfl hallowed rfl (by simp),
                hsince.note id False.elim (by simp [didThrow]) (by simp) rfl⟩
          | error fault =>
              cases fault with
              | usageError message =>
                  exact ⟨count, rfl, rfl, htally.pass rfl rfl (by simp),
                    hsince.note False.elim id (by simp) (by simp [didFault]) rfl⟩
              | _ =>
                  exact ⟨count, rfl, rfl, htally.deliver rfl hallowed rfl (by simp),
                    hsince.note id False.elim (by simp [didThrow]) (by simp) rfl⟩
      | sendOutcome event =>
          rw [sectionsOf_append_self, SectionLog.note_inside _ ⟨by simp, by simp⟩]
          cases x with
          | ok _ =>
              exact ⟨count, rfl, rfl, htally.deliver rfl hallowed rfl (by simp),
                hsince.note id False.elim (by simp [didThrow]) (by simp) rfl⟩
          | error e =>
              exact ⟨count, rfl, rfl, htally.pass rfl rfl (by simp),
                hsince.note False.elim id (by simp) (by simp [didFault]) rfl⟩
      | leave => simp [SessionNumbering] at helsewhere
      | _ => exact absurd hallowed id
  | delivered n =>
      cases c with
      | advance next => simp [SessionNumbering] at helsewhere
      | _ => exact absurd hallowed id
  | advanced n =>
      cases c with
      | leave => simp [SessionNumbering] at helsewhere
      | _ => exact absurd hallowed id
  | failed n =>
      cases c with
      | leave => simp [SessionNumbering] at helsewhere
      | _ => exact absurd hallowed id

end Discipline

theorem numberingDiscipline_kept (P : Primitives) (keys : Nat → JsString) (start : Nat) :
    (numberingDiscipline keys start).Kept (SessionNumbering P keys) where
  starts := fun hstarts => Signing.outward hstarts
  outside := by
    intro who c next x hidle hrole htold
    obtain ⟨hallowed, hnext⟩ := hidle
    have hnot : c ≠ .enter := by
      rintro rfl
      simp [SessionNumbering] at hrole
    obtain ⟨hdelivers, hadvances, hinside, hstage⟩ := outside_passes hallowed hnot x
    refine ⟨?_, ?_, ?_⟩
    · have hfollows := hnext x htold
      rw [show (sections (keys who)).next .outside c x = .outside from hstage] at hfollows
      exact hfollows
    · rintro served value log ⟨count, hvalue, htally⟩
      exact ⟨count, hvalue, htally.pass hdelivers hadvances hinside⟩
    · rintro served holder value log rest hne ⟨stage, hfollows, hrunning⟩
      refine ⟨stage, hfollows, ?_⟩
      rw [sectionsOf_append_of_ne hne.symm]
      exact hrunning.pass hdelivers hadvances hinside
  enter := by
    intro served who value log c next read hidle hrole hfree
    obtain ⟨count, hvalue, htally⟩ := hfree
    cases c with
    | enter =>
        obtain rfl : id = read := by simpa [SessionNumbering] using hrole
        refine ⟨.numbered value, hidle.2 value trivial, count, hvalue, rfl, htally.pass rfl rfl (by simp), ?_⟩
        rw [sectionsOf_append_self]
        exact ⟨by simp [SectionLog.note], by simp [SectionLog.note], rfl⟩
    | _ => simp [SessionNumbering] at hrole
  access := by
    intro served who value log c next use hheld hrole
    obtain ⟨stage, ⟨hallowed, hnext⟩, hrunning⟩ := hheld
    cases c with
    | advance following =>
        obtain rfl : (fun _ => ((), following)) = use := by simpa [SessionNumbering] using hrole
        cases stage with
        | delivered n =>
            obtain rfl : following = n + 1 := hallowed
            obtain ⟨count, hn, -, htally, hsince⟩ := hrunning
            refine ⟨.advanced n, hnext () trivial, count, hn, rfl, htally.advance, ?_⟩
            rw [sectionsOf_append_self, SectionLog.note_inside _ ⟨by simp, by simp⟩]
            exact hsince.advance _ _
        | _ => exact absurd hallowed id
    | _ => simp [SessionNumbering] at hrole
  leave := by
    intro served who value log c next answer hheld hrole
    obtain ⟨stage, ⟨hallowed, hnext⟩, hrunning⟩ := hheld
    cases c with
    | leave =>
        cases stage with
        | numbered n =>
            obtain ⟨count, rfl, rfl, htally, hsince⟩ := hrunning
            exact ⟨⟨count, rfl, htally.leave ⟨fun h => (hsince.threw h).elim, fun h => (hsince.faulted h).elim⟩⟩,
              hnext () trivial⟩
        | advanced n =>
            obtain ⟨count, rfl, hvalue, htally, hsince⟩ := hrunning
            exact ⟨⟨count + 1, hvalue, htally.leave ⟨fun h => (hsince.threw h).elim, fun _ => hsince.used⟩⟩,
              hnext () trivial⟩
        | failed n =>
            obtain ⟨count, rfl, rfl, htally, hsince⟩ := hrunning
            exact ⟨⟨count, rfl, htally.leave ⟨fun _ => hsince.used, fun h => (hsince.faulted h).elim⟩⟩,
              hnext () trivial⟩
        | _ => exact absurd hallowed id
    | _ => simp [SessionNumbering] at hrole
  within := by
    intro served who value log c next x hheld hrole htold
    obtain ⟨stage, ⟨hallowed, hnext⟩, hrunning⟩ := hheld
    exact ⟨stage.next c x, hnext x htold, hrunning.within hallowed hrole⟩

-- The event a program has handed to the transport and awaits the answer to.
def inFlight : Tool Unit → Option Json
  | .call (.sendAttempt event) _ => some event
  | .call (.sendOutcome event) _ => some event
  | _ => none

theorem Outward.inFlight {keyId : JsString} {program : Tool Unit} (h : Outward keyId program) : AuditableMcp.inFlight program = none := by
  cases program with
  | done a => rfl
  | fail e => rfl
  | call c next =>
      cases c with
      | sendAttempt event => exact absurd h.1 id
      | sendOutcome event => exact absurd h.1 id
      | _ => rfl

section

variable {P : Primitives} {keys : Nat → JsString} {start : Nat} {s : Sharing.State SessionCall.Answer JsError Unit Nat}

-- However far a section has come, the numbers delivered and the numbers used up are counted.
theorem Running.tally {value : Nat} {log : SessionLog} {since : Trace} {stage : Stage}
    (h : Running keys start value log since stage) : ∃ sent usedUp, Tally keys start log sent usedUp ∧ value = start + usedUp := by
  cases stage with
  | outside => exact absurd h id
  | numbered n =>
      obtain ⟨count, hn, hvalue, htally, -⟩ := h
      exact ⟨count, count, htally, hvalue.trans hn⟩
  | delivered n =>
      obtain ⟨count, hn, hvalue, htally, -⟩ := h
      exact ⟨count + 1, count, htally, hvalue.trans hn⟩
  | advanced n =>
      obtain ⟨count, hn, hvalue, htally, -⟩ := h
      exact ⟨count + 1, count + 1, htally, by omega⟩
  | failed n =>
      obtain ⟨count, hn, hvalue, htally, -⟩ := h
      exact ⟨count, count, htally, hvalue.trans hn⟩

theorem Tally.delivered {log : SessionLog} {sent usedUp : Nat} (h : Tally keys start log sent usedUp) :
    (deliveries log).length = sent := by
  have hlength := congrArg List.length h.numbers
  simpa [signerSeqs, numbersFrom] using hlength

theorem Interleaves.governed (h : Interleaves P keys start s) :
    ∃ count, Sharing.Governed (numberingDiscipline keys start) s count :=
  Sharing.Reaches.governed (numberingDiscipline_kept P keys start) ⟨0, rfl, tally_nil keys start⟩ h

theorem Interleaves.tally (h : Interleaves P keys start s) :
    ∃ sent usedUp, Tally keys start s.log sent usedUp ∧ s.value = start + usedUp := by
  obtain ⟨count, hgoverned⟩ := h.governed
  rcases hgoverned.value with ⟨-, used, hvalue, htally⟩ | ⟨who, rest, -, stage, -, hrunning⟩
  · exact ⟨used, used, htally, hvalue⟩
  · exact hrunning.tally

-- Only the thread in its section has an event in flight, and it is the next number's.
theorem Interleaves.inFlight (h : Interleaves P keys start s) {who : Nat}
    {thread : SessionThread} {event : Json} (hthread : s.threads[who]? = some thread)
    (hflight : AuditableMcp.inFlight thread.rest = some event) :
    (∃ turn, thread.status = .holding turn) ∧
      Carries (keys who) event (start + (deliveries s.log).length) := by
  obtain ⟨count, hgoverned⟩ := h.governed
  have hholding : ∃ turn, thread.status = .holding turn := by
    by_contra hnot
    have hidle := hgoverned.idle who thread hthread fun turn hturn => hnot ⟨turn, hturn⟩
    rw [Outward.inFlight hidle] at hflight
    cases hflight
  refine ⟨hholding, ?_⟩
  obtain ⟨turn, hturn⟩ := hholding
  obtain ⟨rest, status⟩ := thread
  subst hturn
  obtain ⟨-, stage, hfollows, hrunning⟩ := hgoverned.holder hthread
  cases rest with
  | done a => cases hflight
  | fail e => cases hflight
  | call c next =>
      have hallowed : stage.allows (keys who) c := hfollows.1
      cases stage with
      | numbered n =>
          obtain ⟨sent, rfl, -, htally, -⟩ := hrunning
          rw [htally.delivered]
          cases c with
          | sendAttempt sentEvent =>
              obtain rfl := Option.some.inj hflight
              exact hallowed
          | sendOutcome sentEvent =>
              obtain rfl := Option.some.inj hflight
              exact hallowed
          | _ => cases hflight
      | outside => exact absurd hrunning id
      | _ =>
          cases c with
          | sendAttempt sentEvent => exact absurd hallowed id
          | sendOutcome sentEvent => exact absurd hallowed id
          | _ => cases hflight

end

-- Whatever the interleaving, events are delivered in the order of their numbers, and none
-- is skipped or given twice.
theorem numbers_in_order {P : Primitives} {keys : Nat → JsString} {start : Nat}
    {s : Sharing.State SessionCall.Answer JsError Unit Nat}
    (h : Interleaves P keys start s) :
    signerSeqs (deliveries s.log) = numbersFrom start (deliveries s.log).length ∧
    s.value = start + consumed s.log ∧
    (∀ who, ∀ trace ∈ (sectionsOf who s.log).left, Accounted trace) ∧
    (∀ (who : Nat) (thread : SessionThread) (event : Json), s.threads[who]? = some thread →
      inFlight thread.rest = some event → Carries (keys who) event (start + (deliveries s.log).length)) ∧
    ∀ (first second : Nat) (p q : SessionThread) (event other : Json), s.threads[first]? = some p →
      s.threads[second]? = some q → inFlight p.rest = some event → inFlight q.rest = some other → first = second := by
  obtain ⟨sent, usedUp, htally, hvalue⟩ := h.tally
  refine ⟨?_, ?_, htally.accounted, fun who thread event hthread hflight => (h.inFlight hthread hflight).2, ?_⟩
  · rw [htally.delivered]
    exact htally.numbers
  · rw [hvalue, htally.consumed]
  · intro first second p q event other hp hq hfirst hsecond
    obtain ⟨count, hgoverned⟩ := h.governed
    obtain ⟨turn, hturn⟩ := (h.inFlight hp hfirst).1
    obtain ⟨later, hlater⟩ := (h.inFlight hq hsecond).1
    obtain ⟨rest, status⟩ := p
    obtain ⟨rest', status'⟩ := q
    subst hturn hlater
    exact hgoverned.orderly.exclusive hp hq

section Runs

open Reference

theorem signingWorld_stamps (keyId id : JsString) (response : Json) (c : SessionCall) :
    Stamps keyId c (signingWorld keyId id response c) := by
  cases c with
  | sign event signerSeq =>
      cases event with
      | obj members => exact ⟨rfl, rfl⟩
      | _ => exact ⟨rfl, rfl⟩
  | _ => trivial

-- An operation of a session, as its handler ends it without further moves.
def ending (keyId : JsString) : Tool Unit := do
  let _ ← withAudit primitives (signingSession keyId) querySpec
  return ()

theorem ending_signing (keyId : JsString) : Signing primitives keyId (ending keyId) :=
  .withAudit (signingSession keyId) rfl querySpec

-- Two sessions on one numbering, in turns. The second makes its claim while the first is
-- in its section, and the host is not available to either.
def contended : Sharing.State SessionCall.Answer JsError Unit Nat :=
  let S := SessionNumbering primitives fun _ => "key-1"
  (List.replicate 30 [0, 1]).flatten.foldl
    (Sharing.State.go S fun _ => signingWorld "key-1" EVENT_1 unavailableResponse)
    (((Sharing.State.new 5).spawn S (ending "key-1")).spawn S (ending "key-1"))

theorem contended_interleaves : Interleaves primitives (fun _ => "key-1") 5 contended :=
  Sharing.Reaches.schedule (fun _ c => signingWorld_stamps "key-1" EVENT_1 unavailableResponse c)
    ((Sharing.Reaches.refl.spawn (ending_signing "key-1")).spawn (ending_signing "key-1")) _

theorem contended_in_order :
    contended.log.map Prod.fst = [0, 1, 0, 0, 0, 0, 0, 0, 1, 1, 1, 1, 1, 1, 0, 0, 0, 0, 0, 0, 1, 1, 1, 1, 1, 1] ∧
    (deliveries contended.log).length = 4 ∧
    signerSeqs (deliveries contended.log) = numbersFrom 5 (deliveries contended.log).length ∧
    contended.value = 5 + consumed contended.log :=
  ⟨by decide +kernel, by decide +kernel, (numbers_in_order contended_interleaves).1, (numbers_in_order contended_interleaves).2.1⟩

end Runs

end AuditableMcp
