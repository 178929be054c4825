import AuditableMcp.Library.Program

-- Which calls are in place, mode by mode, and the mode a call and its answer lead to. The
-- world is told to give only certain answers.
structure Protocol {C : Type} (A : C → Type) (M : Type) where
  allows : M → C → Prop
  next : M → (c : C) → A c → M
  told : (c : C) → A c → Prop

namespace Program

variable {C : Type} {A : C → Type} {M ε α β : Type} {p : Protocol A M}

-- Whatever it is told, a program makes only calls that are in place, and it ends in a mode
-- that goes with its result.
def Follows (p : Protocol A M) (post : M → Except ε α → Prop) : M → Program A ε α → Prop
  | mode, .done a => post mode (.ok a)
  | mode, .fail e => post mode (.error e)
  | mode, .call c next => p.allows mode c ∧ ∀ x, p.told c x → (next x).Follows p post (p.next mode c x)

theorem Follows.mono {post more : M → Except ε α → Prop} {program : Program A ε α} {mode : M}
    (h : program.Follows p post mode) (hmore : ∀ m result, post m result → more m result) :
    program.Follows p more mode := by
  induction program generalizing mode with
  | done a => exact hmore mode _ h
  | fail e => exact hmore mode _ h
  | call c next ih => exact ⟨h.1, fun x hx => ih x (h.2 x hx)⟩

theorem follows_ask {c : C} {mode : M} {post : M → Except ε (A c) → Prop} (hallowed : p.allows mode c)
    (hpost : ∀ x, p.told c x → post (p.next mode c x) (.ok x)) : (ask c : Program A ε (A c)).Follows p post mode :=
  ⟨hallowed, hpost⟩

theorem follows_ofExcept {x : Except ε α} {mode : M} {post : M → Except ε α → Prop} (h : post mode x) :
    (ofExcept x : Program A ε α).Follows p post mode := by
  cases x with
  | ok a => exact h
  | error e => exact h

theorem Follows.bind {post : M → Except ε α → Prop} {last : M → Except ε β → Prop} {program : Program A ε α}
    {f : α → Program A ε β} {mode : M} (h : program.Follows p post mode)
    (hok : ∀ m a, post m (.ok a) → (f a).Follows p last m) (herror : ∀ m e, post m (.error e) → last m (.error e)) :
    (program >>= f).Follows p last mode := by
  show (program.bind f).Follows p last mode
  induction program generalizing mode with
  | done a => exact hok mode a h
  | fail e => exact herror mode e h
  | call c next ih => exact ⟨h.1, fun x hx => ih x (h.2 x hx)⟩

theorem Follows.settle {post : M → Except ε α → Prop} {program : Program A ε α} {mode : M}
    (h : program.Follows p post mode) :
    program.settle.Follows p (fun m result => ∃ settled, result = .ok settled ∧ post m settled) mode := by
  induction program generalizing mode with
  | done a => exact ⟨_, rfl, h⟩
  | fail e => exact ⟨_, rfl, h⟩
  | call c next ih => exact ⟨h.1, fun x hx => ih x (h.2 x hx)⟩

theorem Follows.andFinally {post last : M → Except ε α → Prop} {program : Program A ε α} {ending : Program A ε Unit}
    {mode : M} (h : program.Follows p post mode)
    (hending : ∀ m result, post m result → ending.Follows p (fun m' done => last m' (done.bind fun _ => result)) m) :
    (program.andFinally ending).Follows p last mode := by
  refine h.settle.bind ?_ ?_
  · rintro m settled ⟨result, hresult, hpost⟩
    obtain rfl := Except.ok.inj hresult
    refine (hending m settled hpost).bind (fun m' _ hlast => follows_ofExcept hlast) fun m' e hlast => hlast
  · rintro m e ⟨result, hresult, -⟩
    cases hresult

end Program
