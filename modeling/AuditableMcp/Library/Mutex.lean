import AuditableMcp.Library.Program

-- A lock whose claims are served in the order they were made. Each claim waits for the
-- claim before it, as a promise in a chain does.
structure Mutex where
  -- Who made each claim.
  claims : List Nat
  released : List Nat

namespace Mutex

def new : Mutex := ⟨[], []⟩

def claim (lock : Mutex) (who : Nat) : Mutex := { lock with claims := lock.claims ++ [who] }

-- The first claim waits for nothing.
def Serves (lock : Mutex) : Nat → Prop
  | 0 => True
  | earlier + 1 => earlier ∈ lock.released

instance (lock : Mutex) (turn : Nat) : Decidable (lock.Serves turn) :=
  match turn with
  | 0 => inferInstanceAs (Decidable True)
  | earlier + 1 => inferInstanceAs (Decidable (earlier ∈ lock.released))

def release (lock : Mutex) (turn : Nat) : Mutex := { lock with released := lock.released ++ [turn] }

-- So many claims have been released, and they are the first ones.
def Concluded (lock : Mutex) (count : Nat) : Prop :=
  count ≤ lock.claims.length ∧ ∀ turn, turn ∈ lock.released ↔ turn < count

theorem concluded_new : new.Concluded 0 := ⟨Nat.le_refl 0, fun turn => by simp [new]⟩

theorem Concluded.claim {lock : Mutex} {count : Nat} (h : lock.Concluded count) (who : Nat) :
    (lock.claim who).Concluded count := by
  refine ⟨?_, h.2⟩
  have hle := h.1
  simp only [Mutex.claim, List.length_append]
  omega

theorem Concluded.release {lock : Mutex} {count : Nat} (h : lock.Concluded count) (hlt : count < lock.claims.length) :
    (lock.release count).Concluded (count + 1) := by
  refine ⟨hlt, fun turn => ?_⟩
  simp only [Mutex.release, List.mem_append, List.mem_singleton, h.2]
  omega

theorem Concluded.serves_iff {lock : Mutex} {count turn : Nat} (h : lock.Concluded count) :
    lock.Serves turn ↔ turn ≤ count := by
  cases turn with
  | zero => simp [Serves]
  | succ earlier => simp only [Serves, h.2, Nat.succ_le_iff]

end Mutex

-- What a call has to do with a value that programs share under a lock.
inductive Role (σ A : Type) where
  | enter (read : σ → A)
  | access (use : σ → A × σ)
  | leave (answer : A)
  | elsewhere

-- Programs that share a value: the part each call plays, what the world may answer a
-- thread's calls that leave the value alone, and which program each thread runs.
structure Sharing {C : Type} (A : C → Type) (ε α σ : Type) where
  role : (c : C) → Role σ (A c)
  told : Nat → (c : C) → A c → Prop
  starts : Nat → Program A ε α → Prop

namespace Sharing

variable {C : Type} {A : C → Type} {ε α σ : Type}

-- Where a thread stands to the lock, and under which claim.
inductive Status where
  | idle
  | waiting (turn : Nat)
  | holding (turn : Nat)

structure Thread (A : C → Type) (ε α : Type) where
  rest : Program A ε α
  status : Status

abbrev Log (A : C → Type) := List (Nat × Program.Exchange A)

structure State (A : C → Type) (ε α σ : Type) where
  lock : Mutex
  value : σ
  threads : List (Thread A ε α)
  log : Log A

def State.new (value : σ) : State A ε α σ := ⟨.new, value, [], []⟩

variable (S : Sharing A ε α σ)

-- A program that begins with a section makes its claim at once.
def arrive (lock : Mutex) (who : Nat) (rest : Program A ε α) : Mutex × Thread A ε α :=
  match rest with
  | .call c next =>
      match S.role c with
      | .enter _ => (lock.claim who, ⟨.call c next, .waiting lock.claims.length⟩)
      | _ => (lock, ⟨.call c next, .idle⟩)
  | .done a => (lock, ⟨.done a, .idle⟩)
  | .fail e => (lock, ⟨.fail e, .idle⟩)

-- One thread goes on, whichever it is. A program that comes to a later section makes its
-- claim some time after what came before.
inductive Step : State A ε α σ → State A ε α σ → Prop where
  | spawn (s : State A ε α σ) (program : Program A ε α) (hstarts : S.starts s.threads.length program) :
      Step s { s with
        lock := (S.arrive s.lock s.threads.length program).1
        threads := s.threads ++ [(S.arrive s.lock s.threads.length program).2] }
  | claim (s : State A ε α σ) {who : Nat} {c : C} {next : A c → Program A ε α} {read : σ → A c}
      (hthread : s.threads[who]? = some ⟨.call c next, .idle⟩) (hrole : S.role c = .enter read) :
      Step s { s with
        lock := s.lock.claim who
        threads := s.threads.set who ⟨.call c next, .waiting s.lock.claims.length⟩ }
  | enter (s : State A ε α σ) {who turn : Nat} {c : C} {next : A c → Program A ε α} {read : σ → A c}
      (hthread : s.threads[who]? = some ⟨.call c next, .waiting turn⟩) (hrole : S.role c = .enter read)
      (hserves : s.lock.Serves turn) :
      Step s { s with
        threads := s.threads.set who ⟨next (read s.value), .holding turn⟩
        log := s.log ++ [(who, ⟨c, some (read s.value)⟩)] }
  | access (s : State A ε α σ) {who turn : Nat} {c : C} {next : A c → Program A ε α} {use : σ → A c × σ}
      (hthread : s.threads[who]? = some ⟨.call c next, .holding turn⟩) (hrole : S.role c = .access use) :
      Step s { s with
        value := (use s.value).2
        threads := s.threads.set who ⟨next (use s.value).1, .holding turn⟩
        log := s.log ++ [(who, ⟨c, some (use s.value).1⟩)] }
  | leave (s : State A ε α σ) {who turn : Nat} {c : C} {next : A c → Program A ε α} {answer : A c}
      (hthread : s.threads[who]? = some ⟨.call c next, .holding turn⟩) (hrole : S.role c = .leave answer) :
      Step s { s with
        lock := s.lock.release turn
        threads := s.threads.set who ⟨next answer, .idle⟩
        log := s.log ++ [(who, ⟨c, some answer⟩)] }
  | within (s : State A ε α σ) {who turn : Nat} {c : C} {next : A c → Program A ε α} {x : A c}
      (hthread : s.threads[who]? = some ⟨.call c next, .holding turn⟩) (hrole : S.role c = .elsewhere)
      (htold : S.told who c x) :
      Step s { s with
        threads := s.threads.set who ⟨next x, .holding turn⟩
        log := s.log ++ [(who, ⟨c, some x⟩)] }
  | outside (s : State A ε α σ) {who : Nat} {c : C} {next : A c → Program A ε α} {x : A c}
      (hthread : s.threads[who]? = some ⟨.call c next, .idle⟩) (hrole : S.role c = .elsewhere) (htold : S.told who c x) :
      Step s { s with
        threads := s.threads.set who ⟨next x, .idle⟩
        log := s.log ++ [(who, ⟨c, some x⟩)] }

-- The states of every interleaving.
inductive Reaches (start : State A ε α σ) : State A ε α σ → Prop where
  | refl : Reaches start start
  | step {s s' : State A ε α σ} (h : Reaches start s) (hstep : S.Step s s') : Reaches start s'

-- The claims and the threads agree: the threads that wait are still to be served, and the
-- one that holds the lock is the next.
structure Orderly (s : State A ε α σ) (count : Nat) : Prop where
  concluded : s.lock.Concluded count
  waiting : ∀ who rest turn, s.threads[who]? = some ⟨rest, .waiting turn⟩ →
    s.lock.claims[turn]? = some who ∧ count ≤ turn
  holding : ∀ who rest turn, s.threads[who]? = some ⟨rest, .holding turn⟩ →
    s.lock.claims[turn]? = some who ∧ turn = count

-- No two threads are in a section at once.
theorem Orderly.exclusive {s : State A ε α σ} {count first second turn other : Nat} {p q : Program A ε α}
    (h : Orderly s count) (hfirst : s.threads[first]? = some ⟨p, .holding turn⟩)
    (hsecond : s.threads[second]? = some ⟨q, .holding other⟩) : first = second := by
  obtain ⟨hclaim, rfl⟩ := h.holding first p turn hfirst
  obtain ⟨hclaim', rfl⟩ := h.holding second q other hsecond
  rw [hclaim] at hclaim'
  exact Option.some.inj hclaim'

-- What is known of the programs outside a section, of the value when no section runs,
-- and of both while one runs. The first argument lists whose sections have concluded.
structure Discipline (A : C → Type) (ε α σ : Type) where
  idle : Nat → Program A ε α → Prop
  free : List Nat → σ → Log A → Prop
  held : List Nat → Nat → σ → Log A → Program A ε α → Prop

-- What has to be shown of a discipline: of each program in its own section, and of what it
-- does outside. Nothing is asked of how sections are interleaved.
structure Discipline.Kept (D : Discipline A ε α σ) : Prop where
  starts : ∀ {who program}, S.starts who program → D.idle who program
  outside : ∀ {who c next x}, D.idle who (.call c next) → S.role c = .elsewhere → S.told who c x →
    D.idle who (next x) ∧
      (∀ served value log, D.free served value log → D.free served value (log ++ [(who, ⟨c, some x⟩)])) ∧
      ∀ served holder value log rest, holder ≠ who → D.held served holder value log rest →
        D.held served holder value (log ++ [(who, ⟨c, some x⟩)]) rest
  enter : ∀ {served who value log c next read}, D.idle who (.call c next) → S.role c = .enter read →
    D.free served value log → D.held served who value (log ++ [(who, ⟨c, some (read value)⟩)]) (next (read value))
  access : ∀ {served who value log c next use}, D.held served who value log (.call c next) → S.role c = .access use →
    D.held served who (use value).2 (log ++ [(who, ⟨c, some (use value).1⟩)]) (next (use value).1)
  leave : ∀ {served who value log c next answer}, D.held served who value log (.call c next) →
    S.role c = .leave answer →
    D.free (served ++ [who]) value (log ++ [(who, ⟨c, some answer⟩)]) ∧ D.idle who (next answer)
  within : ∀ {served who value log c next x}, D.held served who value log (.call c next) → S.role c = .elsewhere →
    S.told who c x → D.held served who value (log ++ [(who, ⟨c, some x⟩)]) (next x)

-- Where a discipline stands: the sections concluded so far, and at most one that runs.
structure Governed (D : Discipline A ε α σ) (s : State A ε α σ) (count : Nat) : Prop where
  orderly : Orderly s count
  idle : ∀ (who : Nat) (thread : Thread A ε α), s.threads[who]? = some thread →
    (∀ turn, thread.status ≠ .holding turn) → D.idle who thread.rest
  value : ((∀ (who : Nat) (rest : Program A ε α) (turn : Nat), s.threads[who]? ≠ some ⟨rest, .holding turn⟩) ∧
      D.free (s.lock.claims.take count) s.value s.log) ∨
    ∃ who rest, s.threads[who]? = some ⟨rest, .holding count⟩ ∧
      D.held (s.lock.claims.take count) who s.value s.log rest

section

variable {S} {D : Discipline A ε α σ} {s s' : State A ε α σ} {count : Nat}

theorem governed_new (value : σ) (hfree : D.free [] value []) : Governed D (State.new value) 0 where
  orderly := ⟨Mutex.concluded_new, by simp [State.new], by simp [State.new]⟩
  idle := by simp [State.new]
  value := Or.inl ⟨by simp [State.new], hfree⟩

-- Threads of which at most one is new or has changed.
def Puts (threads after : List (Thread A ε α)) (who : Nat) (thread : Thread A ε α) : Prop :=
  ∀ other t, after[other]? = some t → (other = who ∧ t = thread) ∨ (other ≠ who ∧ threads[other]? = some t)

theorem puts_set (threads : List (Thread A ε α)) (who : Nat) (thread : Thread A ε α) :
    Puts threads (threads.set who thread) who thread := by
  intro other t ht
  simp only [List.getElem?_set] at ht
  split at ht
  · rename_i hwho
    split at ht
    · exact Or.inl ⟨hwho.symm, (Option.some.inj ht).symm⟩
    · cases ht
  · rename_i hwho
    exact Or.inr ⟨Ne.symm hwho, ht⟩

theorem puts_append (threads : List (Thread A ε α)) (thread : Thread A ε α) :
    Puts threads (threads ++ [thread]) threads.length thread := by
  intro other t ht
  by_cases hlt : other < threads.length
  · rw [List.getElem?_append_left hlt] at ht
    exact Or.inr ⟨Nat.ne_of_lt hlt, ht⟩
  · rw [List.getElem?_append_right (Nat.not_lt.mp hlt), List.getElem?_singleton] at ht
    split at ht
    · exact Or.inl ⟨by omega, (Option.some.inj ht).symm⟩
    · cases ht

theorem Orderly.update (h : Orderly s count) {who after : Nat} {thread : Thread A ε α} {lock : Mutex} {value : σ}
    {log : Log A} {threads : List (Thread A ε α)} (hputs : Puts s.threads threads who thread)
    (hconcluded : lock.Concluded after)
    (hclaims : ∀ (turn claimant : Nat), s.lock.claims[turn]? = some claimant → lock.claims[turn]? = some claimant)
    (hwaits : ∀ turn, thread.status = .waiting turn → lock.claims[turn]? = some who ∧ after ≤ turn)
    (hholds : ∀ turn, thread.status = .holding turn → lock.claims[turn]? = some who ∧ turn = after)
    (hwaiting : ∀ (other : Nat) (rest : Program A ε α) (turn : Nat), other ≠ who →
      s.threads[other]? = some ⟨rest, .waiting turn⟩ → after ≤ turn)
    (hholding : ∀ (other : Nat) (rest : Program A ε α) (turn : Nat), other ≠ who →
      s.threads[other]? = some ⟨rest, .holding turn⟩ → turn = after) :
    Orderly ⟨lock, value, threads, log⟩ after where
  concluded := hconcluded
  waiting := by
    intro other rest turn hother
    rcases hputs other _ hother with ⟨rfl, rfl⟩ | ⟨hne, hold⟩
    · exact hwaits turn rfl
    · exact ⟨hclaims turn other (h.waiting other rest turn hold).1, hwaiting other rest turn hne hold⟩
  holding := by
    intro other rest turn hother
    rcases hputs other _ hother with ⟨rfl, rfl⟩ | ⟨hne, hold⟩
    · exact hholds turn rfl
    · exact ⟨hclaims turn other (h.holding other rest turn hold).1, hholding other rest turn hne hold⟩

-- A new claim changes nothing for those that were made before.
theorem Orderly.claims (h : Orderly s count) {who : Nat} {thread : Thread A ε α} {value : σ} {log : Log A}
    {threads : List (Thread A ε α)} (hputs : Puts s.threads threads who thread)
    (hthread : thread.status = .waiting s.lock.claims.length) :
    Orderly ⟨s.lock.claim who, value, threads, log⟩ count := by
  apply h.update hputs (h.concluded.claim who)
  · intro turn claimant hclaim
    obtain ⟨hlt, -⟩ := List.getElem?_eq_some_iff.mp hclaim
    rw [Mutex.claim, List.getElem?_append_left hlt, hclaim]
  · intro turn hturn
    rw [hthread] at hturn
    obtain rfl : s.lock.claims.length = turn := by simpa using hturn
    exact ⟨by simp [Mutex.claim], h.concluded.1⟩
  · intro turn hturn
    rw [hthread] at hturn
    cases hturn
  · exact fun other rest turn _ hother => (h.waiting other rest turn hother).2
  · exact fun other rest turn _ hother => (h.holding other rest turn hother).2

-- Where the lock stays and the thread that goes on keeps its place in it.
theorem Orderly.goes_on (h : Orderly s count) {who : Nat} {rest next : Program A ε α} {status : Status} {value : σ}
    {log : Log A} (hthread : s.threads[who]? = some ⟨rest, status⟩) :
    Orderly ⟨s.lock, value, s.threads.set who ⟨next, status⟩, log⟩ count := by
  apply h.update (puts_set s.threads who _) h.concluded (fun _ _ hclaim => hclaim)
  · rintro turn rfl
    exact h.waiting who rest turn hthread
  · rintro turn rfl
    exact h.holding who rest turn hthread
  · exact fun other rest turn _ hother => (h.waiting other rest turn hother).2
  · exact fun other rest turn _ hother => (h.holding other rest turn hother).2

theorem Governed.holder (h : Governed D s count) {who turn : Nat} {rest : Program A ε α}
    (hthread : s.threads[who]? = some ⟨rest, .holding turn⟩) :
    turn = count ∧ D.held (s.lock.claims.take count) who s.value s.log rest := by
  obtain ⟨-, rfl⟩ := h.orderly.holding who rest turn hthread
  refine ⟨rfl, ?_⟩
  rcases h.value with ⟨hnone, -⟩ | ⟨holder, held, hholder, hheld⟩
  · exact absurd hthread (hnone who rest turn)
  · obtain rfl := h.orderly.exclusive hholder hthread
    rw [hthread] at hholder
    obtain rfl : rest = held := by simpa using hholder
    exact hheld

-- Programs that are not in a section stay as the discipline has them.
theorem Governed.idle_update (h : Governed D s count) {who : Nat} {thread : Thread A ε α}
    {threads : List (Thread A ε α)} (hputs : Puts s.threads threads who thread)
    (hthread : (∀ turn, thread.status ≠ .holding turn) → D.idle who thread.rest) :
    ∀ (other : Nat) (t : Thread A ε α), threads[other]? = some t → (∀ turn, t.status ≠ .holding turn) →
      D.idle other t.rest := by
  intro other t ht hnot
  rcases hputs other t ht with ⟨rfl, rfl⟩ | ⟨-, hold⟩
  · exact hthread hnot
  · exact h.idle other t hold hnot

-- A step inside the section that runs.
theorem Governed.inside (h : Governed D s count) {who turn : Nat} {rest next : Program A ε α} {value : σ} {log : Log A}
    (hthread : s.threads[who]? = some ⟨rest, .holding turn⟩)
    (hheld : D.held (s.lock.claims.take count) who value log next) :
    Governed D ⟨s.lock, value, s.threads.set who ⟨next, .holding turn⟩, log⟩ count where
  orderly := h.orderly.goes_on hthread
  idle := h.idle_update (puts_set s.threads who _) fun hnot => absurd rfl (hnot turn)
  value := by
    obtain ⟨hlt, -⟩ := List.getElem?_eq_some_iff.mp hthread
    obtain ⟨rfl, -⟩ := h.holder hthread
    exact Or.inr ⟨who, next, by simp [hlt], hheld⟩

-- A step outside: the section that runs, or the value at rest, is as it was.
theorem Governed.value_update (h : Governed D s count) {who : Nat} {thread : Thread A ε α} {lock : Mutex} {log : Log A}
    {threads : List (Thread A ε α)} (hputs : Puts s.threads threads who thread)
    (hkeeps : ∀ other, other ≠ who → threads[other]? = s.threads[other]?)
    (hold : ∀ rest turn, s.threads[who]? ≠ some ⟨rest, .holding turn⟩) (hnot : ∀ turn, thread.status ≠ .holding turn)
    (htake : lock.claims.take count = s.lock.claims.take count)
    (hfree : ∀ served value, D.free served value s.log → D.free served value log)
    (hheld : ∀ served holder value rest, holder ≠ who → D.held served holder value s.log rest →
      D.held served holder value log rest) :
    ((∀ (who : Nat) (rest : Program A ε α) (turn : Nat), threads[who]? ≠ some ⟨rest, .holding turn⟩) ∧
        D.free (lock.claims.take count) s.value log) ∨
      ∃ who rest, threads[who]? = some ⟨rest, .holding count⟩ ∧ D.held (lock.claims.take count) who s.value log rest := by
  rw [htake]
  rcases h.value with ⟨hnone, hvalue⟩ | ⟨holder, held, hholder, hvalue⟩
  · refine Or.inl ⟨fun other rest turn hother => ?_, hfree _ _ hvalue⟩
    rcases hputs other _ hother with ⟨-, rfl⟩ | ⟨-, hbefore⟩
    · exact hnot turn rfl
    · exact hnone other rest turn hbefore
  · have hne : holder ≠ who := by
      rintro rfl
      exact hold held count hholder
    exact Or.inr ⟨holder, held, by rw [hkeeps holder hne, hholder], hheld _ holder _ held hne hvalue⟩

theorem take_claim (h : Orderly s count) (who : Nat) :
    (s.lock.claim who).claims.take count = s.lock.claims.take count :=
  List.take_append_of_le_length h.concluded.1

-- One step, whichever thread makes it, leaves the discipline standing.
theorem Governed.step (hkept : D.Kept S) (h : Governed D s count) (hstep : S.Step s s') :
    ∃ after, Governed D s' after := by
  cases hstep with
  | spawn program hstarts =>
      have hidle := hkept.starts hstarts
      have hputs := puts_append s.threads (S.arrive s.lock s.threads.length program).2
      have hkeeps : ∀ other, other ≠ s.threads.length →
          (s.threads ++ [(S.arrive s.lock s.threads.length program).2])[other]? = s.threads[other]? := by
        intro other hother
        by_cases hlt : other < s.threads.length
        · exact List.getElem?_append_left hlt
        · rw [List.getElem?_append_right (Nat.not_lt.mp hlt), List.getElem?_eq_none (Nat.not_lt.mp hlt),
            List.getElem?_eq_none]
          simp only [List.length_singleton]
          omega
      have hnew : ∀ (rest : Program A ε α) turn, s.threads[s.threads.length]? ≠ some ⟨rest, .holding turn⟩ := by simp
      refine ⟨count, ?_⟩
      have hplain : (S.arrive s.lock s.threads.length program) = (s.lock, ⟨program, .idle⟩) ∨
          (S.arrive s.lock s.threads.length program) =
            (s.lock.claim s.threads.length, ⟨program, .waiting s.lock.claims.length⟩) := by
        unfold arrive
        split
        · split
          · exact Or.inr rfl
          · exact Or.inl rfl
        · exact Or.inl rfl
        · exact Or.inl rfl
      rcases hplain with harrive | harrive
      · rw [harrive] at hputs hkeeps ⊢
        exact ⟨h.orderly.update hputs h.orderly.concluded (fun _ _ hclaim => hclaim) (by simp) (by simp)
          (fun other rest turn _ hother => (h.orderly.waiting other rest turn hother).2)
          (fun other rest turn _ hother => (h.orderly.holding other rest turn hother).2),
          h.idle_update hputs fun _ => hidle,
          h.value_update hputs hkeeps hnew (by simp) rfl (fun _ _ hfree => hfree) fun _ _ _ _ _ hheld => hheld⟩
      · rw [harrive] at hputs hkeeps ⊢
        exact ⟨h.orderly.claims hputs rfl, h.idle_update hputs fun _ => hidle,
          h.value_update hputs hkeeps hnew (by simp) (take_claim h.orderly _) (fun _ _ hfree => hfree)
            fun _ _ _ _ _ hheld => hheld⟩
  | @claim who c next read hthread hrole =>
      have hputs := puts_set s.threads who (⟨.call c next, .waiting s.lock.claims.length⟩ : Thread A ε α)
      have hidle := h.idle who _ hthread (by simp)
      refine ⟨count, h.orderly.claims hputs rfl, h.idle_update hputs fun _ => hidle,
        h.value_update hputs (fun other hother => List.getElem?_set_ne (Ne.symm hother)) ?_ (by simp)
          (take_claim h.orderly who) (fun _ _ hfree => hfree) fun _ _ _ _ _ hheld => hheld⟩
      intro rest turn hother
      rw [hthread] at hother
      simp at hother
  | @enter who turn c next read hthread hrole hserves =>
      have hidle := h.idle who _ hthread (by simp)
      obtain ⟨hclaim, hle⟩ := h.orderly.waiting who _ turn hthread
      obtain rfl : turn = count := Nat.le_antisymm (h.orderly.concluded.serves_iff.mp hserves) hle
      obtain ⟨hlt, -⟩ := List.getElem?_eq_some_iff.mp hthread
      refine ⟨turn, ?_, h.idle_update (puts_set s.threads who _) fun hnot => absurd rfl (hnot turn), ?_⟩
      · exact h.orderly.update (puts_set s.threads who _) h.orderly.concluded (fun _ _ hclaim => hclaim) (by simp)
          (fun other hother => by
            obtain rfl : turn = other := by simpa using hother
            exact ⟨hclaim, rfl⟩)
          (fun other rest turn _ hother => (h.orderly.waiting other rest turn hother).2)
          (fun other rest turn _ hother => (h.orderly.holding other rest turn hother).2)
      · rcases h.value with ⟨-, hfree⟩ | ⟨holder, held, hholder, -⟩
        · exact Or.inr ⟨who, _, by simp [hlt], hkept.enter hidle hrole hfree⟩
        · -- The thread that would hold the lock has the same claim, and waits.
          have hsame := (h.orderly.holding holder held turn hholder).1
          rw [hclaim] at hsame
          obtain rfl := Option.some.inj hsame
          rw [hthread] at hholder
          simp at hholder
  | @access who turn c next use hthread hrole =>
      exact ⟨count, h.inside hthread (hkept.access (h.holder hthread).2 hrole)⟩
  | @within who turn c next x hthread hrole htold =>
      exact ⟨count, h.inside hthread (hkept.within (h.holder hthread).2 hrole htold)⟩
  | @leave who turn c next answer hthread hrole =>
      obtain ⟨rfl, hheld⟩ := h.holder hthread
      obtain ⟨hfree, hidle⟩ := hkept.leave hheld hrole
      obtain ⟨hclaim, -⟩ := h.orderly.holding who _ turn hthread
      obtain ⟨hlt, -⟩ := List.getElem?_eq_some_iff.mp hclaim
      have hputs := puts_set s.threads who (⟨next answer, .idle⟩ : Thread A ε α)
      refine ⟨turn + 1, ?_, h.idle_update hputs fun _ => hidle, Or.inl ⟨fun other rest later hother => ?_, ?_⟩⟩
      · apply h.orderly.update hputs (h.orderly.concluded.release hlt) (fun _ _ hclaim => hclaim) (by simp) (by simp)
        · intro other rest later hne hother
          obtain ⟨hother', hle⟩ := h.orderly.waiting other rest later hother
          refine Nat.lt_of_le_of_ne hle ?_
          rintro rfl
          rw [hclaim] at hother'
          exact hne (Option.some.inj hother').symm
        · intro other rest later hne hother
          exact absurd (h.orderly.exclusive hother hthread) hne
      · rcases hputs other _ hother with ⟨-, hnew⟩ | ⟨hne, hold⟩
        · cases hnew
        · exact hne (h.orderly.exclusive hold hthread)
      · have htake : (s.lock.release turn).claims.take (turn + 1) = s.lock.claims.take turn ++ [who] := by
          rw [Mutex.release, List.take_add_one, hclaim, Option.toList_some]
        rw [htake]
        exact hfree
  | @outside who c next x hthread hrole htold =>
      obtain ⟨hidle, hfree, hheld⟩ := hkept.outside (h.idle who _ hthread (by simp)) hrole htold
      have hputs := puts_set s.threads who (⟨next x, .idle⟩ : Thread A ε α)
      refine ⟨count, h.orderly.goes_on hthread, h.idle_update hputs fun _ => hidle,
        h.value_update hputs (fun other hother => List.getElem?_set_ne (Ne.symm hother)) ?_ (by simp) rfl
          (fun served value => hfree served value s.log) fun served holder value => hheld served holder value s.log⟩
      intro rest turn hother
      rw [hthread] at hother
      simp at hother

-- What a discipline says holds in every interleaving.
theorem Reaches.governed {value : σ} (hkept : D.Kept S) (hfree : D.free [] value [])
    (h : S.Reaches (State.new value) s) : ∃ count, Governed D s count := by
  induction h with
  | refl => exact ⟨0, governed_new value hfree⟩
  | step _ hstep ih =>
      obtain ⟨count, hgoverned⟩ := ih
      exact hgoverned.step hkept hstep

end

-- One thread's next step, in a world that has an answer to every call of it; a thread that may
-- not go on stays.
def State.go (world : Nat → (c : C) → A c) (s : State A ε α σ) (who : Nat) : State A ε α σ :=
  match s.threads[who]? with
  | some ⟨.call c next, .idle⟩ =>
      match S.role c with
      | .enter _ =>
          { s with
            lock := s.lock.claim who
            threads := s.threads.set who ⟨.call c next, .waiting s.lock.claims.length⟩ }
      | .elsewhere =>
          { s with
            threads := s.threads.set who ⟨next (world who c), .idle⟩
            log := s.log ++ [(who, ⟨c, some (world who c)⟩)] }
      | _ => s
  | some ⟨.call c next, .waiting turn⟩ =>
      match S.role c with
      | .enter read =>
          if s.lock.Serves turn then
            { s with
              threads := s.threads.set who ⟨next (read s.value), .holding turn⟩
              log := s.log ++ [(who, ⟨c, some (read s.value)⟩)] }
          else s
      | _ => s
  | some ⟨.call c next, .holding turn⟩ =>
      match S.role c with
      | .access use =>
          { s with
            value := (use s.value).2
            threads := s.threads.set who ⟨next (use s.value).1, .holding turn⟩
            log := s.log ++ [(who, ⟨c, some (use s.value).1⟩)] }
      | .leave answer =>
          { s with
            lock := s.lock.release turn
            threads := s.threads.set who ⟨next answer, .idle⟩
            log := s.log ++ [(who, ⟨c, some answer⟩)] }
      | .elsewhere =>
          { s with
            threads := s.threads.set who ⟨next (world who c), .holding turn⟩
            log := s.log ++ [(who, ⟨c, some (world who c)⟩)] }
      | .enter _ => s
  | _ => s

def State.spawn (s : State A ε α σ) (program : Program A ε α) : State A ε α σ :=
  { s with
    lock := (S.arrive s.lock s.threads.length program).1
    threads := s.threads ++ [(S.arrive s.lock s.threads.length program).2] }

section

variable {S} {start s : State A ε α σ}

theorem Reaches.spawn (h : S.Reaches start s) {program : Program A ε α} (hstarts : S.starts s.threads.length program) :
    S.Reaches start (s.spawn S program) := h.step (.spawn s program hstarts)

theorem Reaches.go {world : Nat → (c : C) → A c} (htold : ∀ who c, S.told who c (world who c)) (h : S.Reaches start s) (who : Nat) :
    S.Reaches start (s.go S world who) := by
  unfold State.go
  split
  · rename_i c next hthread
    split
    · rename_i read hrole
      exact h.step (.claim s hthread hrole)
    · rename_i hrole
      exact h.step (.outside s hthread hrole (htold who c))
    · exact h
  · rename_i c next turn hthread
    split
    · rename_i read hrole
      split
      · rename_i hserves
        exact h.step (.enter s hthread hrole hserves)
      · exact h
    · exact h
  · rename_i c next turn hthread
    split
    · rename_i use hrole
      exact h.step (.access s hthread hrole)
    · rename_i answer hrole
      exact h.step (.leave s hthread hrole)
    · rename_i hrole
      exact h.step (.within s hthread hrole (htold who c))
    · exact h
  · exact h

theorem Reaches.schedule {world : Nat → (c : C) → A c} (htold : ∀ who c, S.told who c (world who c)) (h : S.Reaches start s)
    (schedule : List Nat) : S.Reaches start (schedule.foldl (State.go S world) s) := by
  induction schedule generalizing s with
  | nil => exact h
  | cons who rest ih => exact ih (h.go htold who)

end

end Sharing
