import Mathlib.Data.List.Basic

-- A program as a tree: it is done, it has failed, or it asks something of the world and
-- goes on with the answer. `A c` is the type of the answers to `c`.
inductive Program {C : Type} (A : C → Type) (ε α : Type) where
  | done (a : α)
  | fail (e : ε)
  | call (c : C) (next : A c → Program A ε α)

namespace Program

variable {C : Type} {A : C → Type} {ε α β : Type}

def bind (program : Program A ε α) (f : α → Program A ε β) : Program A ε β :=
  match program with
  | .done a => f a
  | .fail e => .fail e
  | .call c next => .call c fun x => (next x).bind f

instance : Monad (Program A ε) where
  pure := .done
  bind := bind

def ask (c : C) : Program A ε (A c) := .call c .done

def ofExcept : Except ε α → Program A ε α
  | .ok a => .done a
  | .error e => .fail e

theorem bind_assoc {γ : Type} (program : Program A ε α) (f : α → Program A ε β) (g : β → Program A ε γ) :
    program >>= f >>= g = program >>= fun a => f a >>= g := by
  show (program.bind f).bind g = program.bind fun a => (f a).bind g
  induction program with
  | done a => rfl
  | fail e => rfl
  | call c next ih => exact congrArg (Program.call c) (funext ih)

-- The result of a program, a failure included: what `try` makes of it.
def settle : Program A ε α → Program A ε (Except ε α)
  | .done a => .done (.ok a)
  | .fail e => .done (.error e)
  | .call c next => .call c fun x => (next x).settle

-- `try { return await program } finally { await last }`
def andFinally (program : Program A ε α) (last : Program A ε Unit) : Program A ε α := do
  let result ← program.settle
  last
  ofExcept result

-- A call, and its answer where there is one yet.
structure Exchange (A : C → Type) where
  call : C
  answer : Option (A call)

-- The runs of a program: what it asked, what it was told, and its result. A run may have
-- come no further than a call that has no answer yet, and then it has no result.
inductive Runs : Program A ε α → List (Exchange A) → Option (Except ε α) → Prop where
  | done (a : α) : Runs (.done a) [] (some (.ok a))
  | fail (e : ε) : Runs (.fail e) [] (some (.error e))
  | waiting (c : C) (next : A c → Program A ε α) : Runs (.call c next) [⟨c, none⟩] none
  | answered {c : C} {next : A c → Program A ε α} (x : A c) {trace : List (Exchange A)}
      {result : Option (Except ε α)} (h : Runs (next x) trace result) :
      Runs (.call c next) (⟨c, some x⟩ :: trace) result

section

variable {trace : List (Exchange A)}

theorem runs_done {a : α} {result : Option (Except ε α)} :
    Runs (A := A) (.done a) trace result ↔ trace = [] ∧ result = some (.ok a) := by
  constructor
  · intro h
    cases h
    exact ⟨rfl, rfl⟩
  · rintro ⟨rfl, rfl⟩
    exact .done a

theorem runs_fail {e : ε} {result : Option (Except ε α)} :
    Runs (A := A) (.fail e) trace result ↔ trace = [] ∧ result = some (.error e) := by
  constructor
  · intro h
    cases h
    exact ⟨rfl, rfl⟩
  · rintro ⟨rfl, rfl⟩
    exact .fail e

theorem runs_call {c : C} {next : A c → Program A ε α} {result : Option (Except ε α)} :
    Runs (.call c next) trace result ↔ (trace = [⟨c, none⟩] ∧ result = none) ∨
      ∃ x rest, trace = ⟨c, some x⟩ :: rest ∧ Runs (next x) rest result := by
  constructor
  · intro h
    cases h with
    | waiting => exact Or.inl ⟨rfl, rfl⟩
    | answered x h => exact Or.inr ⟨x, _, rfl, h⟩
  · rintro (⟨rfl, rfl⟩ | ⟨x, rest, rfl, h⟩)
    · exact .waiting c next
    · exact .answered x h

theorem runs_pure {a : α} {result : Option (Except ε α)} :
    Runs (A := A) (pure a) trace result ↔ trace = [] ∧ result = some (.ok a) := runs_done

theorem runs_ask {c : C} {result : Option (Except ε (A c))} :
    Runs (ask c) trace result ↔ (trace = [⟨c, none⟩] ∧ result = none) ∨
      ∃ x, trace = [⟨c, some x⟩] ∧ result = some (.ok x) := by
  unfold ask
  rw [runs_call]
  refine or_congr_right (exists_congr fun x => ?_)
  simp only [runs_done]
  constructor
  · rintro ⟨rest, rfl, rfl, rfl⟩
    exact ⟨rfl, rfl⟩
  · rintro ⟨rfl, rfl⟩
    exact ⟨[], rfl, rfl, rfl⟩

theorem runs_ofExcept {x : Except ε α} {result : Option (Except ε α)} :
    Runs (A := A) (ofExcept x) trace result ↔ trace = [] ∧ result = some x := by
  cases x with
  | ok a => exact runs_done
  | error e => exact runs_fail

theorem runs_bind {program : Program A ε α} {f : α → Program A ε β} {result : Option (Except ε β)} :
    Runs (program >>= f) trace result ↔
      (∃ a first rest, Runs program first (some (.ok a)) ∧ Runs (f a) rest result ∧ trace = first ++ rest) ∨
      (∃ e, Runs program trace (some (.error e)) ∧ result = some (.error e)) ∨
      (Runs program trace none ∧ result = none) := by
  show Runs (program.bind f) trace result ↔ _
  induction program generalizing trace with
  | done a => simp [bind, runs_done]
  | fail e => simp [bind, runs_fail]
  | call c next ih =>
      simp only [bind, runs_call, ih]
      constructor
      · rintro (⟨rfl, rfl⟩ | ⟨x, rest, rfl, ⟨a, first, last, hx, hf, rfl⟩ | ⟨e, hx, rfl⟩ | ⟨hx, rfl⟩⟩)
        · exact Or.inr (Or.inr ⟨Or.inl ⟨rfl, trivial⟩, rfl⟩)
        · exact Or.inl ⟨a, _, last, Or.inr ⟨x, first, rfl, hx⟩, hf, rfl⟩
        · exact Or.inr (Or.inl ⟨e, Or.inr ⟨x, rest, rfl, hx⟩, rfl⟩)
        · exact Or.inr (Or.inr ⟨Or.inr ⟨x, rest, rfl, hx⟩, rfl⟩)
      · rintro (⟨a, first, rest, ⟨-, ha⟩ | ⟨x, others, rfl, hx⟩, hf, rfl⟩ | ⟨e, ⟨-, he⟩ | ⟨x, others, rfl, hx⟩, rfl⟩ |
          ⟨⟨rfl, -⟩ | ⟨x, others, rfl, hx⟩, rfl⟩)
        · cases ha
        · exact Or.inr ⟨x, _, rfl, Or.inl ⟨a, others, rest, hx, hf, rfl⟩⟩
        · cases he
        · exact Or.inr ⟨x, _, rfl, Or.inr (Or.inl ⟨e, hx, rfl⟩)⟩
        · exact Or.inl ⟨rfl, rfl⟩
        · exact Or.inr ⟨x, _, rfl, Or.inr (Or.inr ⟨hx, rfl⟩)⟩

theorem runs_settle {program : Program A ε α} {result : Option (Except ε (Except ε α))} :
    Runs program.settle trace result ↔
      (∃ settled, Runs program trace (some settled) ∧ result = some (.ok settled)) ∨
      (Runs program trace none ∧ result = none) := by
  induction program generalizing trace with
  | done a => simp [settle, runs_done, and_assoc]
  | fail e => simp [settle, runs_done, runs_fail, and_assoc]
  | call c next ih =>
      simp only [settle, runs_call, ih]
      constructor
      · rintro (⟨rfl, rfl⟩ | ⟨x, rest, rfl, ⟨settled, hx, rfl⟩ | ⟨hx, rfl⟩⟩)
        · exact Or.inr ⟨Or.inl ⟨rfl, trivial⟩, rfl⟩
        · exact Or.inl ⟨settled, Or.inr ⟨x, rest, rfl, hx⟩, rfl⟩
        · exact Or.inr ⟨Or.inr ⟨x, rest, rfl, hx⟩, rfl⟩
      · rintro (⟨settled, ⟨-, hs⟩ | ⟨x, rest, rfl, hx⟩, rfl⟩ | ⟨⟨rfl, -⟩ | ⟨x, rest, rfl, hx⟩, rfl⟩)
        · cases hs
        · exact Or.inr ⟨x, rest, rfl, Or.inl ⟨settled, hx, rfl⟩⟩
        · exact Or.inl ⟨rfl, rfl⟩
        · exact Or.inr ⟨x, rest, rfl, Or.inr ⟨hx, rfl⟩⟩

end

-- The last part runs however the program ended, and its result is the program's unless
-- the last part fails.
theorem runs_andFinally {program : Program A ε α} {last : Program A ε Unit} {trace : List (Exchange A)}
    {result : Option (Except ε α)} (h : Runs (program.andFinally last) trace result) :
    (Runs program trace none ∧ result = none) ∨ ∃ settled first rest ended, Runs program first (some settled) ∧
      Runs last rest ended ∧ trace = first ++ rest ∧ result = ended.map fun done => done.bind fun _ => settled := by
  rcases runs_bind.mp h with ⟨settled, first, rest, hfirst, hrest, rfl⟩ | ⟨e, hsettle, rfl⟩ | ⟨hsettle, rfl⟩
  · rcases runs_settle.mp hfirst with ⟨other, hprogram, hsettled⟩ | ⟨-, hnone⟩
    · obtain rfl : settled = other := by simpa using hsettled
      refine Or.inr ⟨settled, first, rest, ?_⟩
      rcases runs_bind.mp hrest with ⟨done, second, third, hlast, hresult, rfl⟩ | ⟨e, hlast, rfl⟩ | ⟨hlast, rfl⟩
      · obtain ⟨rfl, rfl⟩ := runs_ofExcept.mp hresult
        exact ⟨some (.ok done), hprogram, by simpa using hlast, by simp, rfl⟩
      · exact ⟨some (.error e), hprogram, hlast, rfl, rfl⟩
      · exact ⟨none, hprogram, hlast, rfl, rfl⟩
    · cases hnone
  · rcases runs_settle.mp hsettle with ⟨settled, -, hsettled⟩ | ⟨-, hnone⟩
    · cases hsettled
    · cases hnone
  · rcases runs_settle.mp hsettle with ⟨settled, -, hsettled⟩ | ⟨hprogram, -⟩
    · cases hsettled
    · exact Or.inl ⟨hprogram, rfl⟩

-- A program whose calls, whatever it is told, are all of one kind.
def Only (S : C → Prop) : Program A ε α → Prop
  | .done _ => True
  | .fail _ => True
  | .call c next => S c ∧ ∀ x, (next x).Only S

section

variable {S T : C → Prop}

theorem Only.mono {program : Program A ε α} (h : program.Only S) (hmore : ∀ c, S c → T c) : program.Only T := by
  induction program with
  | done a => trivial
  | fail e => trivial
  | call c next ih => exact ⟨hmore c h.1, fun x => ih x (h.2 x)⟩

theorem only_ask {c : C} (h : S c) : (ask c : Program A ε (A c)).Only S := ⟨h, fun _ => trivial⟩

theorem only_ofExcept (x : Except ε α) : (ofExcept x : Program A ε α).Only S := by
  cases x <;> trivial

theorem only_pure (a : α) : (pure a : Program A ε α).Only S := trivial

theorem Only.bind {program : Program A ε α} {f : α → Program A ε β} (h : program.Only S) (hf : ∀ a, (f a).Only S) :
    (program >>= f).Only S := by
  show (program.bind f).Only S
  induction program with
  | done a => exact hf a
  | fail e => trivial
  | call c next ih => exact ⟨h.1, fun x => ih x (h.2 x)⟩

theorem Only.settle {program : Program A ε α} (h : program.Only S) : program.settle.Only S := by
  induction program with
  | done a => trivial
  | fail e => trivial
  | call c next ih => exact ⟨h.1, fun x => ih x (h.2 x)⟩

theorem Only.andFinally {program : Program A ε α} {last : Program A ε Unit} (h : program.Only S) (hlast : last.Only S) :
    (program.andFinally last).Only S := h.settle.bind fun _ => hlast.bind fun _ => only_ofExcept _

theorem Only.runs {program : Program A ε α} (h : program.Only S) {trace : List (Exchange A)}
    {result : Option (Except ε α)} (hruns : Runs program trace result) : ∀ exchange ∈ trace, S exchange.call := by
  induction hruns with
  | done a => simp
  | fail e => simp
  | waiting c next => simpa using h.1
  | answered x _ ih =>
      simp only [List.forall_mem_cons]
      exact ⟨h.1, ih (h.2 x)⟩

end

-- A program whose values, whatever it is told, all have a property.
def Returns (Q : α → Prop) : Program A ε α → Prop
  | .done a => Q a
  | .fail _ => True
  | .call _ next => ∀ x, (next x).Returns Q

theorem Returns.bind {Q : β → Prop} {f : α → Program A ε β} (program : Program A ε α) (h : ∀ a, (f a).Returns Q) :
    (program >>= f).Returns Q := by
  show (program.bind f).Returns Q
  induction program with
  | done a => exact h a
  | fail e => trivial
  | call c next ih => exact fun x => ih x

theorem Returns.runs {Q : α → Prop} {program : Program A ε α} (h : program.Returns Q) {trace : List (Exchange A)} {a : α}
    (hruns : Runs program trace (some (.ok a))) : Q a := by
  induction program generalizing trace with
  | done b =>
      obtain ⟨-, hresult⟩ := runs_done.mp hruns
      obtain rfl := Except.ok.inj (Option.some.inj hresult)
      exact h
  | fail e =>
      obtain ⟨-, hresult⟩ := runs_fail.mp hruns
      cases hresult
  | call c next ih =>
      rcases runs_call.mp hruns with ⟨-, hnone⟩ | ⟨x, rest, -, hrest⟩
      · cases hnone
      · exact ih x (h x) hrest

-- A program run in a world that has an answer to every call.
def runWith (world : (c : C) → A c) : Program A ε α → List (Exchange A) × Except ε α
  | .done a => ([], .ok a)
  | .fail e => ([], .error e)
  | .call c next =>
      let rest := (next (world c)).runWith world
      (⟨c, some (world c)⟩ :: rest.1, rest.2)

theorem runs_runWith (world : (c : C) → A c) (program : Program A ε α) :
    Runs program (program.runWith world).1 (some (program.runWith world).2) := by
  induction program with
  | done a => exact .done a
  | fail e => exact .fail e
  | call c next ih => exact .answered (world c) (ih (world c))

theorem answer_of_runWith (world : (c : C) → A c) (program : Program A ε α) :
    ∀ exchange ∈ (program.runWith world).1, exchange.answer = some (world exchange.call) := by
  induction program with
  | done a => simp [runWith]
  | fail e => simp [runWith]
  | call c next ih =>
      simp only [runWith, List.forall_mem_cons]
      exact ⟨trivial, ih (world c)⟩

end Program
