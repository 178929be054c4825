import AuditableMcp.Library.Each

-- A computation that can fail, taken apart: each step of one that succeeded did.
theorem bind_ok {ε α β : Type} {x : Except ε α} {f : α → Except ε β} {b : β} (h : (x >>= f) = .ok b) :
    ∃ a, x = .ok a ∧ f a = .ok b := by
  cases x with
  | error e => cases h
  | ok a => exact ⟨a, rfl, h⟩

theorem pure_ok {ε α : Type} {a b : α} (h : (pure a : Except ε α) = .ok b) : a = b := Except.ok.inj h

-- A fold that can fail, read as a loop: an invariant that relates what was folded so
-- far to the state, kept by each step that succeeds.
theorem foldlM_ok_invariant {ε σ α : Type} {f : σ → α → Except ε σ} (I : List α → σ → Prop) (items : List α)
    (hstep : ∀ done item rest s s', items = done ++ item :: rest → I done s → f s item = .ok s' →
      I (done ++ [item]) s') {s s' : σ} (hstart : I [] s) (hfold : items.foldlM f s = .ok s') : I items s' := by
  suffices h : ∀ rest done s, items = done ++ rest → I done s → rest.foldlM f s = .ok s' → I items s' from
    h items [] s rfl hstart hfold
  intro rest
  induction rest with
  | nil =>
      intro done s hitems hdone hf
      have hs : s = s' := pure_ok hf
      rw [hitems, List.append_nil, ← hs]
      exact hdone
  | cons item rest ih =>
      intro done s hitems hdone hf
      rw [List.foldlM_cons] at hf
      obtain ⟨next, hfs, hf⟩ := bind_ok hf
      exact ih (done ++ [item]) next (by simp [hitems]) (hstep done item rest s next hitems hdone hfs) hf

-- A fold succeeds exactly where every step does, when the invariant tells which steps do
-- from what was folded before.
theorem foldlM_isOk_each {ε σ α : Type} {f : σ → α → Except ε σ} (I : List α → σ → Prop) (C : List α → α → Prop)
    (items : List α)
    (hstep : ∀ done item rest s, items = done ++ item :: rest → I done s → ((∃ s', f s item = .ok s') ↔ C done item))
    (hkeep : ∀ done item rest s s', items = done ++ item :: rest → I done s → f s item = .ok s' →
      I (done ++ [item]) s') {s : σ} (hstart : I [] s) :
    (∃ s', items.foldlM f s = .ok s') ↔ Each C items := by
  induction items using List.reverseRecOn with
  | nil => exact ⟨fun _ => Each.nil, fun _ => ⟨s, rfl⟩⟩
  | append_singleton before item ih =>
      have hbefore := ih (fun done other rest s h => hstep done other (rest ++ [item]) s (by simp [h]))
        fun done other rest s s' h => hkeep done other (rest ++ [item]) s s' (by simp [h])
      have hreached {middle : σ} (h : before.foldlM f s = .ok middle) : I before middle :=
        foldlM_ok_invariant I before
          (fun done other rest s s' h => hkeep done other (rest ++ [item]) s s' (by simp [h])) hstart h
      rw [Each.append_singleton, ← hbefore, List.foldlM_append]
      constructor
      · rintro ⟨last, hlast⟩
        obtain ⟨middle, hmiddle, hlast⟩ := bind_ok hlast
        rw [List.foldlM_cons] at hlast
        obtain ⟨next, hnext, -⟩ := bind_ok hlast
        exact ⟨⟨middle, hmiddle⟩, (hstep before item [] middle (by simp) (hreached hmiddle)).mp ⟨next, hnext⟩⟩
      · rintro ⟨⟨middle, hmiddle⟩, hitem⟩
        obtain ⟨next, hnext⟩ := (hstep before item [] middle (by simp) (hreached hmiddle)).mpr hitem
        refine ⟨next, ?_⟩
        rw [hmiddle]
        change List.foldlM f middle [item] = .ok next
        rw [List.foldlM_cons, hnext]
        rfl

theorem foldlM_isOk_iff {ε σ α : Type} {f : σ → α → Except ε σ} (I : List α → σ → Prop) (C : α → Prop)
    (items : List α)
    (hstep : ∀ done item rest s, items = done ++ item :: rest → I done s → ((∃ s', f s item = .ok s') ↔ C item))
    (hkeep : ∀ done item rest s s', items = done ++ item :: rest → I done s → f s item = .ok s' →
      I (done ++ [item]) s') {s : σ} (hstart : I [] s) :
    (∃ s', items.foldlM f s = .ok s') ↔ ∀ item ∈ items, C item := by
  rw [foldlM_isOk_each I (fun _ item => C item) items hstep hkeep hstart, Each.iff_forall]

-- A fold whose every step succeeds from the states it can meet.
theorem foldlM_total {ε σ α : Type} {f : σ → α → Except ε σ} (I : σ → Prop) (items : List α)
    (hstep : ∀ item ∈ items, ∀ s, I s → ∃ s', f s item = .ok s' ∧ I s') {s : σ} (hstart : I s) :
    ∃ s', items.foldlM f s = .ok s' ∧ I s' := by
  induction items generalizing s with
  | nil => exact ⟨s, rfl, hstart⟩
  | cons item rest ih =>
      obtain ⟨next, hnext, hkept⟩ := hstep item (by simp) s hstart
      obtain ⟨last, hlast, hend⟩ := ih (fun other ho => hstep other (by simp [ho])) hkept
      refine ⟨last, ?_, hend⟩
      rw [List.foldlM_cons, hnext]
      exact hlast

-- A map that can fail has, where it succeeds, a result for each item.
theorem mapM_ok_mem {ε α β : Type} {f : α → Except ε β} {items : List α} {results : List β}
    (h : items.mapM f = .ok results) : ∀ item ∈ items, ∃ result ∈ results, f item = .ok result := by
  induction items generalizing results with
  | nil => simp
  | cons item rest ih =>
      rw [List.mapM_cons] at h
      obtain ⟨first, hfirst, h⟩ := bind_ok h
      obtain ⟨others, hothers, h⟩ := bind_ok h
      obtain rfl := pure_ok h
      intro other ho
      rcases List.mem_cons.mp ho with rfl | hm
      · exact ⟨first, by simp, hfirst⟩
      · obtain ⟨result, hresult, hok⟩ := ih hothers other hm
        exact ⟨result, by simp [hresult], hok⟩

theorem mapM_ok_map {ε α β : Type} {f : α → Except ε β} (g : α → β) {items : List α}
    (h : ∀ item ∈ items, f item = .ok (g item)) : items.mapM f = .ok (items.map g) := by
  induction items with
  | nil => rfl
  | cons item rest ih =>
      rw [List.mapM_cons, h item (by simp), ih fun other ho => h other (by simp [ho])]
      rfl

-- Methods over a state that stays as it stands when they throw, evaluated at a state.
namespace Method

variable {ε σ α β : Type} {state : σ}

@[simp] theorem pure_apply (a : α) : (pure a : EStateM ε σ α) state = .ok a state := rfl

@[simp] theorem throw_apply (e : ε) : (throw e : EStateM ε σ α) state = .error e state := rfl

@[simp] theorem get_apply : (getThe σ : EStateM ε σ σ) state = .ok state state := rfl

@[simp] theorem modify_apply (f : σ → σ) : (modify f : EStateM ε σ PUnit) state = .ok ⟨⟩ (f state) := rfl

@[simp] theorem ite_apply (c : Prop) [Decidable c] (x y : EStateM ε σ α) :
    (if c then x else y) state = if c then x state else y state := by
  by_cases hc : c
  · rw [if_pos hc, if_pos hc]
  · rw [if_neg hc, if_neg hc]

theorem bind_apply (x : EStateM ε σ α) (f : α → EStateM ε σ β) :
    (x >>= f) state = match x state with
      | .ok a next => f a next
      | .error e next => .error e next := rfl

theorem bind_of_ok {x : EStateM ε σ α} {f : α → EStateM ε σ β} {a : α} {next : σ} (h : x state = .ok a next) :
    (x >>= f) state = f a next := by
  rw [bind_apply, h]

theorem bind_of_error {x : EStateM ε σ α} {f : α → EStateM ε σ β} {e : ε} {next : σ} (h : x state = .error e next) :
    (x >>= f) state = .error e next := by
  rw [bind_apply, h]

end Method
