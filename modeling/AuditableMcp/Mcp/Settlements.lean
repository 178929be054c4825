import AuditableMcp.Library.Heap
import AuditableMcp.Mcp.Connection

-- What becomes of the attempts: each stays its call's and its event's, and the first settlement stands.
namespace AuditableMcp.Mcp

structure Attempt.Later (before after : Attempt) : Prop where
  call : after.call = before.call
  event : after.event = before.event
  kept : ∀ response, before.settlement = some response → after.settlement = some response

theorem Attempt.Later.refl (attempt : Attempt) : attempt.Later attempt := ⟨rfl, rfl, fun _ h => h⟩

theorem Attempt.Later.trans {a b c : Attempt} (h : a.Later b) (h' : b.Later c) : a.Later c :=
  ⟨h'.call.trans h.call, h'.event.trans h.event, fun response hr => h'.kept response (h.kept response hr)⟩

theorem Attempt.Later.unsettled {before after : Attempt} (h : before.Later after) (hopen : after.settlement = none) :
    before.settlement = none := by
  cases hb : before.settlement with
  | none => rfl
  | some response =>
      rw [h.kept response hb] at hopen
      cases hopen

structure Progress (before after : List Attempt) : Prop where
  length : after.length = before.length
  later : ∀ (attempt : Nat) (found : Attempt), before[attempt]? = some found →
    ∃ found', after[attempt]? = some found' ∧ found.Later found'

theorem Progress.refl (attempts : List Attempt) : Progress attempts attempts :=
  ⟨rfl, fun _ found h => ⟨found, h, .refl found⟩⟩

theorem Progress.trans {a b c : List Attempt} (h : Progress a b) (h' : Progress b c) : Progress a c := by
  refine ⟨h'.length.trans h.length, fun attempt found hfound => ?_⟩
  obtain ⟨middle, hmiddle, hlater⟩ := h.later attempt found hfound
  obtain ⟨last, hlast, hlater'⟩ := h'.later attempt middle hmiddle
  exact ⟨last, hlast, hlater.trans hlater'⟩

theorem Progress.back {before after : List Attempt} (h : Progress before after) {attempt : Nat} {found' : Attempt}
    (hfound' : after[attempt]? = some found') : ∃ found, before[attempt]? = some found ∧ found.Later found' := by
  have hlt : attempt < before.length := h.length ▸ Heap.lt_of_getElem? hfound'
  obtain ⟨other, hother, hlater⟩ := h.later attempt before[attempt] (List.getElem?_eq_getElem hlt)
  rw [hfound', Option.some_inj] at hother
  exact ⟨before[attempt], List.getElem?_eq_getElem hlt, hother ▸ hlater⟩

section

variable {attempts : List Attempt} {attempt : Nat} {response : Json}

theorem Pending.settle_isSome (pending : Pending) (response : Json) : (pending.settle response).isSome = true := by
  cases pending <;> rfl

theorem modify_progress {change : Attempt → Attempt} (hchange : ∀ found : Attempt, found.Later (change found)) :
    Progress attempts (attempts.modify attempt change) := by
  refine ⟨List.length_modify .., fun other found hfound => ?_⟩
  by_cases hsame : attempt = other
  · subst hsame
    exact ⟨_, Heap.modify_self hfound, hchange found⟩
  · exact ⟨found, Heap.modify_other hfound hsame, .refl found⟩

theorem settle_progress (attempts : List Attempt) (attempt : Nat) (response : Json) :
    Progress attempts (settle attempts attempt response) := by
  apply modify_progress
  intro found
  refine ⟨rfl, rfl, fun old hold => ?_⟩
  change found.settlement.settle response = some old
  rw [hold]
  rfl

theorem settle_settled {found : Attempt} (hfound : attempts[attempt]? = some found) :
    ∃ found', (settle attempts attempt response)[attempt]? = some found' ∧ found'.settlement.isSome = true :=
  ⟨_, Heap.modify_self hfound, Pending.settle_isSome _ _⟩

theorem Attempt.Later.settled {before after : Attempt} (h : before.Later after)
    (hsettled : before.settlement.isSome = true) : after.settlement.isSome = true := by
  obtain ⟨response, hresponse⟩ := Option.isSome_iff_exists.mp hsettled
  rw [h.kept response hresponse]
  rfl

end

-- Each entry's attempt settled in turn.
def settleEach (attempts : List Attempt) (response : JsString × Nat → Json) (entries : List (JsString × Nat)) :
    List Attempt :=
  entries.foldl (fun attempts entry => settle attempts entry.2 (response entry)) attempts

section

variable {response : JsString × Nat → Json} {entries : List (JsString × Nat)} {attempt : Nat}

theorem settleEach_progress (attempts : List Attempt) (response : JsString × Nat → Json)
    (entries : List (JsString × Nat)) : Progress attempts (settleEach attempts response entries) := by
  induction entries generalizing attempts with
  | nil => exact .refl attempts
  | cons entry rest ih => exact (settle_progress attempts entry.2 (response entry)).trans (ih _)

theorem settleEach_settled {attempts : List Attempt} {entry : JsString × Nat} {found : Attempt}
    (hentry : entry ∈ entries) (hfound : attempts[entry.2]? = some found) :
    ∃ found', (settleEach attempts response entries)[entry.2]? = some found' ∧ found'.settlement.isSome = true := by
  induction entries generalizing attempts found with
  | nil => cases hentry
  | cons first rest ih =>
      rcases List.mem_cons.mp hentry with rfl | hrest
      · obtain ⟨middle, hmiddle, hsettled⟩ := @settle_settled attempts entry.2 (response entry) found hfound
        obtain ⟨last, hlast, hlater⟩ := (settleEach_progress _ response rest).later entry.2 middle hmiddle
        exact ⟨last, hlast, hlater.settled hsettled⟩
      · obtain ⟨middle, hmiddle, -⟩ := (settle_progress attempts first.2 (response first)).later entry.2 found hfound
        exact ih hrest hmiddle

theorem settleEach_other {attempts : List Attempt} (hnot : ∀ entry ∈ entries, entry.2 ≠ attempt) :
    (settleEach attempts response entries)[attempt]? = attempts[attempt]? := by
  induction entries generalizing attempts with
  | nil => rfl
  | cons first rest ih =>
      have hfirst : (settle attempts first.2 (response first))[attempt]? = attempts[attempt]? :=
        List.getElem?_modify_ne _ _ (hnot first (by simp))
      exact (ih fun entry hentry => hnot entry (List.mem_cons_of_mem _ hentry)).trans hfirst

-- An attempt that one entry names gets that entry's response.
theorem settleEach_at {attempts : List Attempt} {id : JsString} {found : Attempt} (hentry : (id, attempt) ∈ entries)
    (honly : ∀ entry ∈ entries, entry.2 = attempt → entry.1 = id) (hdistinct : (entries.map Prod.fst).Nodup)
    (hfound : attempts[attempt]? = some found) : (settleEach attempts response entries)[attempt]? =
      some { found with settlement := found.settlement.settle (response (id, attempt)) } := by
  induction entries generalizing attempts with
  | nil => cases hentry
  | cons first rest ih =>
      rw [List.map_cons, List.nodup_cons] at hdistinct
      by_cases hfirst : first.2 = attempt
      · have hid := honly first (by simp) hfirst
        have hsame : first = (id, attempt) := Prod.ext hid hfirst
        subst hsame
        have hrest : ∀ entry ∈ rest, entry.2 ≠ attempt := by
          intro entry hmem hentry
          have hkey : entry.1 ∈ rest.map Prod.fst := List.mem_map_of_mem hmem
          rw [honly entry (List.mem_cons_of_mem _ hmem) hentry] at hkey
          exact hdistinct.1 hkey
        exact (settleEach_other hrest).trans (Heap.modify_self hfound)
      · have hmem : (id, attempt) ∈ rest := by
          rcases List.mem_cons.mp hentry with rfl | hmem
          · exact absurd rfl hfirst
          · exact hmem
        have hkept : (settle attempts first.2 (response first))[attempt]? = some found := Heap.modify_other hfound hfirst
        exact ih hmem (fun entry hentry => honly entry (List.mem_cons_of_mem _ hentry)) hdistinct.2 hkept

end

theorem unanswered_eq (attempts : List Attempt) (awaiting : OrderedMap JsString Nat) :
    unanswered attempts awaiting = settleEach attempts (fun _ => unavailableResponse) awaiting.entries := rfl

theorem unanswered_progress (attempts : List Attempt) (awaiting : OrderedMap JsString Nat) :
    Progress attempts (unanswered attempts awaiting) := settleEach_progress attempts _ awaiting.entries

theorem unanswered_settled {attempts : List Attempt} {awaiting : OrderedMap JsString Nat} {id : JsString} {attempt : Nat}
    {found : Attempt} (hentry : (id, attempt) ∈ awaiting.entries) (hfound : attempts[attempt]? = some found) :
    ∃ found', (unanswered attempts awaiting)[attempt]? = some found' ∧ found'.settlement.isSome = true :=
  @settleEach_settled _ awaiting.entries attempts (id, attempt) found hentry hfound

end AuditableMcp.Mcp
