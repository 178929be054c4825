import AuditableMcp.Mcp.Courses
import AuditableMcp.Reference.Connections

-- The sessions of a connection: which are kept, what the calls under one share, and who sends
-- audit messages.
namespace AuditableMcp.Mcp

open Transport

-- `#sessions` and `#idle` name sessions by their ids, and an idle one is served by no request.
structure SessionTable.Kept (table : SessionTable) : Prop where
  knownDistinct : table.known.keys.Nodup
  idleDistinct : table.idle.keys.Nodup
  known : ∀ id session, table.known.get id = some session →
    ∃ found, table.heap[session]? = some found ∧ found.sessionId = id
  idle : ∀ id session, table.idle.get id = some session → table.known.get id = some session ∧
    ∃ found, table.heap[session]? = some found ∧ found.live ≤ 0
  numbered : ∀ (session : Nat) (found : ToolSession), table.heap[session]? = some found →
    found.numbering < table.numberings
  apart : ∀ (session other : Nat) (found found' : ToolSession), table.heap[session]? = some found →
    table.heap[other]? = some found' → found.numbering = found'.numbering → session = other

-- What of a session no step changes, and a negotiation that stands once it is made.
structure ToolSession.Later (before after : ToolSession) : Prop where
  sessionId : after.sessionId = before.sessionId
  hostCapability : after.hostCapability = before.hostCapability
  numbering : after.numbering = before.numbering
  negotiation : ∀ result, before.negotiation = some result → after.negotiation = some result

structure SessionTable.Later (before after : SessionTable) : Prop where
  sessions : ∀ (session : Nat) (found : ToolSession), before.heap[session]? = some found →
    ∃ found', after.heap[session]? = some found' ∧ found.Later found'
  fresh : ∀ (session : Nat) (found' : ToolSession), after.heap[session]? = some found' →
    (∃ found, before.heap[session]? = some found ∧ found.Later found') ∨ before.numberings ≤ found'.numbering
  numberings : before.numberings ≤ after.numberings

-- Sessions are only dropped where no request is served in them.
structure SessionTable.Drops (before after : SessionTable) : Prop where
  heap : after.heap = before.heap
  numberings : after.numberings = before.numberings
  known : ∀ id session, after.known.get id = some session → before.known.get id = some session
  kept : ∀ id session, before.known.get id = some session → after.known.get id = some session ∨
    ∃ found, before.heap[session]? = some found ∧ found.live ≤ 0

section

variable {table before after last : SessionTable} {session : Nat} {found : ToolSession} {id : JsString}

theorem ToolSession.Later.refl (found : ToolSession) : found.Later found := ⟨rfl, rfl, rfl, fun _ h => h⟩

theorem SessionTable.Later.refl (table : SessionTable) : table.Later table :=
  ⟨fun _ found hfound => ⟨found, hfound, .refl found⟩, fun _ found hfound => Or.inl ⟨found, hfound, .refl found⟩,
    Nat.le_refl _⟩

theorem SessionTable.Drops.refl (table : SessionTable) : table.Drops table :=
  ⟨rfl, rfl, fun _ _ h => h, fun _ _ h => Or.inl h⟩

theorem SessionTable.Drops.trans (h : before.Drops after) (h' : after.Drops last) : before.Drops last := by
  refine ⟨h'.heap.trans h.heap, h'.numberings.trans h.numberings,
    fun id session hget => h.known id session (h'.known id session hget), fun id session hget => ?_⟩
  rcases h.kept id session hget with hkept | hgone
  · rcases h'.kept id session hkept with hkept' | hgone'
    · exact Or.inl hkept'
    · exact Or.inr (h.heap ▸ hgone')
  · exact Or.inr hgone

theorem SessionTable.Kept.same (h : table.Kept) (hknown : table.known.get id = some session)
    (hfound : table.heap[session]? = some found) : found.sessionId = id := by
  obtain ⟨found', hfound', hid⟩ := h.known id session hknown
  obtain rfl := Option.some_inj.mp (hfound.symm.trans hfound')
  exact hid

-- A session that serves no request is dropped.
theorem drop_kept (h : table.Kept) (session : Nat) : (table.drop session).Kept := by
  unfold SessionTable.drop
  split
  · exact h
  · split
    · refine ⟨OrderedMap.nodup_keys_delete h.knownDistinct _, OrderedMap.nodup_keys_delete h.idleDistinct _,
        fun id other hget => ?_, fun id other hget => ?_, h.numbered, h.apart⟩
      · rw [OrderedMap.get_delete] at hget
        split at hget
        · cases hget
        · exact h.known id other hget
      · rw [OrderedMap.get_delete] at hget ⊢
        split at hget
        · cases hget
        · rename_i hne
          rw [if_neg hne]
          exact h.idle id other hget
    · exact h

theorem drop_drops (hfound : table.heap[session]? = some found) (hlive : found.live ≤ 0) :
    table.Drops (table.drop session) := by
  unfold SessionTable.drop
  simp only [hfound]
  split
  · rename_i hknown
    refine ⟨rfl, rfl, fun id other hget => ?_, fun id other hget => ?_⟩
    · rw [OrderedMap.get_delete] at hget
      split at hget
      · cases hget
      · exact hget
    · rw [OrderedMap.get_delete]
      by_cases hid : found.sessionId = id
      · subst hid
        rw [hknown, Option.some_inj] at hget
        exact Or.inr ⟨found, hget ▸ hfound, hlive⟩
      · rw [if_neg hid]
        exact Or.inl hget
  · exact .refl table

theorem drop_idle_le (table : SessionTable) (session : Nat) :
    (table.drop session).idle.entries.length ≤ table.idle.entries.length := by
  unfold SessionTable.drop
  split
  · exact Nat.le_refl _
  · rename_i found hfound
    split
    · have hless := OrderedMap.countP_delete_le (fun _ => true) table.idle found.sessionId
      simpa only [List.countP_true] using hless
    · exact Nat.le_refl _

-- Evictions end when the bound holds.
theorem evictions_bounded (h : table.idle.entries.length ≤ MAX_IDLE_SESSIONS) (entries : List (JsString × Nat)) :
    entries.foldl (fun table entry => table.evict entry.2) table = table := by
  induction entries with
  | nil => rfl
  | cons entry rest ih =>
      have hsame : table.evict entry.2 = table := if_pos h
      rw [List.foldl_cons, hsame, ih]

theorem evict_shrinks (h : table.Kept) (hidle : table.idle.get id = some session)
    (hfull : ¬table.idle.entries.length ≤ MAX_IDLE_SESSIONS) :
    (table.evict session).Kept ∧ table.Drops (table.evict session) ∧
      (table.evict session).idle.entries.length < table.idle.entries.length := by
  obtain ⟨hknown, found, hfound, hlive⟩ := h.idle id session hidle
  have hid := h.same hknown hfound
  have hevict : table.evict session = table.drop session := if_neg hfull
  rw [hevict]
  refine ⟨drop_kept h session, drop_drops hfound hlive, ?_⟩
  have hdrop : table.drop session =
      { table with known := table.known.delete found.sessionId, idle := table.idle.delete found.sessionId } := by
    unfold SessionTable.drop
    simp only [hfound]
    rw [if_pos (hid ▸ hknown)]
  rw [hdrop, hid]
  have hless := @OrderedMap.countP_delete_lt _ _ _ (fun _ => true) _ _ _ hidle rfl
  simpa only [List.countP_true] using hless

-- `#keepIdle`: one more idle session, and the bound holds again.
theorem keepIdle_kept (h : table.Kept) (hbound : table.idle.entries.length ≤ MAX_IDLE_SESSIONS)
    (hfound : table.heap[session]? = some found) (hlive : found.live ≤ 0)
    (hknown : table.known.get found.sessionId = some session) :
    (table.keepIdle session).Kept ∧ (table.keepIdle session).idle.entries.length ≤ MAX_IDLE_SESSIONS ∧
      table.Drops (table.keepIdle session) := by
  have hkept : SessionTable.Kept
      { table with idle := (table.idle.delete found.sessionId).set found.sessionId session } := by
    refine ⟨h.knownDistinct, OrderedMap.nodup_keys_set (OrderedMap.nodup_keys_delete h.idleDistinct _) _ _, h.known,
      fun id other hget => ?_, h.numbered, h.apart⟩
    rw [OrderedMap.get_set] at hget
    split at hget
    · rename_i hid
      obtain rfl := Option.some_inj.mp hget
      exact ⟨hid ▸ hknown, found, hfound, hlive⟩
    · rw [OrderedMap.get_delete] at hget
      split at hget
      · cases hget
      · exact h.idle id other hget
  have hgrows : ((table.idle.delete found.sessionId).set found.sessionId session).entries.length ≤
      table.idle.entries.length + 1 := by
    have hset := OrderedMap.countP_insert_le (fun _ => true) (table.idle.delete found.sessionId).entries
      found.sessionId session
    have hdelete := OrderedMap.countP_delete_le (fun _ => true) table.idle found.sessionId
    simp only [List.countP_true, if_true] at hset hdelete
    exact hset.trans (Nat.add_le_add_right hdelete 1)
  unfold SessionTable.keepIdle
  simp only [hfound]
  by_cases hfull : ((table.idle.delete found.sessionId).set found.sessionId session).entries.length ≤ MAX_IDLE_SESSIONS
  · rw [evictions_bounded hfull]
    exact ⟨hkept, hfull, rfl, rfl, fun _ _ h => h, fun _ _ h => Or.inl h⟩
  · cases hentries : ((table.idle.delete found.sessionId).set found.sessionId session).entries with
    | nil =>
        rw [hentries] at hfull
        exact absurd (Nat.zero_le _) hfull
    | cons first rest =>
        have hfirst : ((table.idle.delete found.sessionId).set found.sessionId session).get first.1 = some first.2 :=
          (OrderedMap.mem_entries_iff hkept.idleDistinct _ _).mp (hentries ▸ List.mem_cons_self ..)
        obtain ⟨hkept', hdrops, hless⟩ := evict_shrinks hkept hfirst hfull
        have hbound' : (SessionTable.evict { table with
            idle := (table.idle.delete found.sessionId).set found.sessionId session } first.2).idle.entries.length ≤
              MAX_IDLE_SESSIONS := by
          dsimp only at hless
          omega
        rw [List.foldl_cons, evictions_bounded hbound']
        refine ⟨hkept', hbound', SessionTable.Drops.trans ?_ hdrops⟩
        exact ⟨rfl, rfl, fun _ _ h => h, fun _ _ h => Or.inl h⟩

end

section

variable {table : SessionTable} {session : Nat} {found : ToolSession} {change : ToolSession → ToolSession}

-- A change of one session that keeps what its calls share.
theorem later_of_modify (hchange : ∀ found : ToolSession, found.Later (change found)) :
    table.Later { table with heap := table.heap.modify session change } := by
  have hone (other : Nat) (found : ToolSession) (hfound : table.heap[other]? = some found) :
      ∃ found', (table.heap.modify session change)[other]? = some found' ∧ found.Later found' := by
    by_cases hsame : session = other
    · subst hsame
      exact ⟨_, Heap.modify_self hfound, hchange found⟩
    · exact ⟨found, Heap.modify_other hfound hsame, .refl found⟩
  refine ⟨hone, fun other found' hfound' => Or.inl ?_, Nat.le_refl _⟩
  obtain ⟨found, hfound, -⟩ := Heap.getElem?_modify_iff.mp hfound'
  obtain ⟨found'', hfound'', hlater⟩ := hone other found hfound
  obtain rfl := Option.some_inj.mp (hfound'.symm.trans hfound'')
  exact ⟨found, hfound, hlater⟩

theorem SessionTable.Later.trans {before middle after : SessionTable} (h : before.Later middle) (h' : middle.Later after) :
    before.Later after := by
  have hjoin {a b c : ToolSession} (hab : a.Later b) (hbc : b.Later c) : a.Later c :=
    ⟨hbc.sessionId.trans hab.sessionId, hbc.hostCapability.trans hab.hostCapability, hbc.numbering.trans hab.numbering,
      fun result hresult => hbc.negotiation result (hab.negotiation result hresult)⟩
  refine ⟨fun session found hfound => ?_, fun session found' hfound' => ?_, h.numberings.trans h'.numberings⟩
  · obtain ⟨found', hfound', hlater⟩ := h.sessions session found hfound
    obtain ⟨found'', hfound'', hlater'⟩ := h'.sessions session found' hfound'
    exact ⟨found'', hfound'', hjoin hlater hlater'⟩
  · rcases h'.fresh session found' hfound' with ⟨found, hfound, hlater⟩ | hnew
    · rcases h.fresh session found hfound with ⟨first, hfirst, hlater'⟩ | hnew
      · exact Or.inl ⟨first, hfirst, hjoin hlater' hlater⟩
      · exact Or.inr (hlater.numbering ▸ hnew)
    · exact Or.inr (h.numberings.trans hnew)

theorem SessionTable.Drops.later {before after : SessionTable} (h : before.Drops after) : before.Later after := by
  refine ⟨fun session found hfound => ⟨found, h.heap ▸ hfound, .refl found⟩, fun session found hfound => Or.inl ?_,
    Nat.le_of_eq h.numberings.symm⟩
  exact ⟨found, h.heap ▸ hfound, .refl found⟩

-- A change of one session that keeps the table.
theorem modify_kept (h : table.Kept) (hchange : ∀ found : ToolSession, found.Later (change found))
    (hlive : ∀ found : ToolSession, table.heap[session]? = some found → found.live ≤ 0 → (change found).live ≤ 0) :
    SessionTable.Kept { table with heap := table.heap.modify session change } := by
  refine ⟨h.knownDistinct, h.idleDistinct, fun id other hget => ?_, fun id other hget => ?_, fun other found hfound => ?_,
    fun first second found found' hfound hfound' hsame => ?_⟩
  · obtain ⟨found, hfound, hid⟩ := h.known id other hget
    obtain ⟨found', hfound', hlater⟩ := (later_of_modify hchange).sessions other found hfound
    exact ⟨found', hfound', hlater.sessionId.trans hid⟩
  · obtain ⟨hknown, found, hfound, hidle⟩ := h.idle id other hget
    refine ⟨hknown, ?_⟩
    by_cases hsame : session = other
    · subst hsame
      exact ⟨_, Heap.modify_self hfound, hlive found hfound hidle⟩
    · exact ⟨found, Heap.modify_other hfound hsame, hidle⟩
  · rcases (later_of_modify hchange).fresh other found hfound with ⟨before, hbefore, hlater⟩ | hnew
    · rw [hlater.numbering]
      exact h.numbered other before hbefore
    · obtain ⟨before, hbefore, rfl⟩ := Heap.getElem?_modify_iff.mp hfound
      split
      · rw [(hchange before).numbering]
        exact h.numbered other before hbefore
      · exact h.numbered other before hbefore
  · obtain ⟨before, hbefore, rfl⟩ := Heap.getElem?_modify_iff.mp hfound
    obtain ⟨before', hbefore', rfl⟩ := Heap.getElem?_modify_iff.mp hfound'
    have hkeeps (found : ToolSession) (other : Nat) :
        (if session = other then change found else found).numbering = found.numbering := by
      split
      · exact (hchange found).numbering
      · rfl
    rw [hkeeps, hkeeps] at hsame
    exact h.apart first second before before' hbefore hbefore' hsame

-- The end of a request in a session that is known.
theorem leave_kept (h : table.Kept) (hbound : table.idle.entries.length ≤ MAX_IDLE_SESSIONS)
    (hfound : table.heap[session]? = some found) (hknown : table.known.get found.sessionId = some session) (final : Bool) :
    (table.leave session final).Kept ∧ (table.leave session final).idle.entries.length ≤ MAX_IDLE_SESSIONS ∧
      SessionTable.Drops { table with heap := table.heap.modify session fun found => { found with live := found.live - 1 } }
        (table.leave session final) := by
  have hleft : SessionTable.Kept
      { table with heap := table.heap.modify session fun found => { found with live := found.live - 1 } } := by
    refine modify_kept h (fun _ => ⟨rfl, rfl, rfl, fun _ h => h⟩) fun found _ hlive => ?_
    dsimp only
    omega
  have hself : (table.heap.modify session fun found => { found with live := found.live - 1 })[session]? =
      some { found with live := found.live - 1 } := Heap.modify_self hfound
  unfold SessionTable.leave
  simp only [hfound]
  split
  · exact ⟨hleft, hbound, .refl _⟩
  · rename_i hserves
    have hidle : found.live - 1 ≤ 0 := by omega
    split
    · exact ⟨drop_kept hleft session, (drop_idle_le _ session).trans hbound, drop_drops hself hidle⟩
    · obtain ⟨hkept, hbounded, hdrops⟩ := keepIdle_kept hleft hbound hself hidle hknown
      exact ⟨hkept, hbounded, hdrops⟩

-- `#acquireSession`: the session that is known under the id, or a new one.
theorem acquire_cases (h : table.Kept) (sessionId : JsString) (declared : Option AuditCapability) :
    (∃ session found, table.known.get sessionId = some session ∧ table.heap[session]? = some found ∧
        table.acquire sessionId declared =
          ({ table with
              heap := table.heap.modify session fun found => { found with live := found.live + 1 }
              idle := table.idle.delete sessionId }, session, found)) ∨
      table.known.get sessionId = none ∧ table.acquire sessionId declared =
        ({ table with
            heap := table.heap ++ [⟨sessionId, declared, table.numberings, none, 1⟩]
            known := table.known.set sessionId table.heap.length
            idle := table.idle.delete sessionId
            numberings := table.numberings + 1 }, table.heap.length, ⟨sessionId, declared, table.numberings, none, 1⟩) := by
  unfold SessionTable.acquire
  cases hknown : table.known.get sessionId with
  | some session =>
      obtain ⟨found, hfound, -⟩ := h.known sessionId session hknown
      exact Or.inl ⟨session, found, rfl, hfound, by simp [hfound]⟩
  | none => exact Or.inr ⟨rfl, rfl⟩

theorem acquire_later (h : table.Kept) (sessionId : JsString) (declared : Option AuditCapability) :
    table.Later (table.acquire sessionId declared).1 := by
  rcases acquire_cases h sessionId declared with ⟨session, found, -, -, heq⟩ | ⟨-, heq⟩
  · rw [heq]
    have hlater := @later_of_modify table session (fun found => { found with live := found.live + 1 })
      fun _ => ⟨rfl, rfl, rfl, fun _ h => h⟩
    exact ⟨hlater.sessions, hlater.fresh, hlater.numberings⟩
  · rw [heq]
    refine ⟨fun session found hfound => ⟨found, Heap.getElem?_append_iff.mpr (Or.inl hfound), .refl found⟩,
      fun session found hfound => ?_, Nat.le_succ _⟩
    rcases Heap.getElem?_append_iff.mp hfound with hold | ⟨-, rfl⟩
    · exact Or.inl ⟨found, hold, .refl found⟩
    · exact Or.inr (Nat.le_refl _)

theorem acquire_kept (h : table.Kept) (sessionId : JsString) (declared : Option AuditCapability) :
    (table.acquire sessionId declared).1.Kept := by
  rcases acquire_cases h sessionId declared with ⟨session, found, hknown, hfound, heq⟩ | ⟨hknown, heq⟩
  · rw [heq]
    have hid := h.same hknown hfound
    have hapart (id : JsString) (other : Nat) (hget : table.idle.get id = some other) (hne : sessionId ≠ id) :
        session ≠ other := by
      rintro rfl
      exact hne (hid.symm.trans (h.same (h.idle id session hget).1 hfound))
    have hlater := @later_of_modify table session (fun found => { found with live := found.live + 1 })
      fun _ => ⟨rfl, rfl, rfl, fun _ h => h⟩
    refine ⟨h.knownDistinct, OrderedMap.nodup_keys_delete h.idleDistinct _, fun id other hget => ?_,
      fun id other hget => ?_, fun other after hafter => ?_, fun first second after after' hafter hafter' hsame => ?_⟩
    · obtain ⟨before, hbefore, hid'⟩ := h.known id other hget
      obtain ⟨after, hafter, hsame⟩ := hlater.sessions other before hbefore
      exact ⟨after, hafter, hsame.sessionId.trans hid'⟩
    · rw [OrderedMap.get_delete] at hget
      split at hget
      · cases hget
      · rename_i hne
        obtain ⟨hknown', before, hbefore, hidle⟩ := h.idle id other hget
        exact ⟨hknown', before, Heap.modify_other hbefore (hapart id other hget hne), hidle⟩
    · obtain ⟨before, hbefore, rfl⟩ := Heap.getElem?_modify_iff.mp hafter
      split <;> exact h.numbered other before hbefore
    · obtain ⟨before, hbefore, rfl⟩ := Heap.getElem?_modify_iff.mp hafter
      obtain ⟨before', hbefore', rfl⟩ := Heap.getElem?_modify_iff.mp hafter'
      refine h.apart first second before before' hbefore hbefore' ?_
      split at hsame <;> split at hsame <;> exact hsame
  · rw [heq]
    refine ⟨OrderedMap.nodup_keys_set h.knownDistinct _ _, OrderedMap.nodup_keys_delete h.idleDistinct _,
      fun id other hget => ?_, fun id other hget => ?_, fun other after hafter => ?_,
      fun first second after after' hafter hafter' hsame => ?_⟩
    · rw [OrderedMap.get_set] at hget
      split at hget
      · rename_i hid
        obtain rfl := Option.some_inj.mp hget
        exact ⟨_, Heap.getElem?_append_iff.mpr (Or.inr ⟨rfl, rfl⟩), hid⟩
      · obtain ⟨before, hbefore, hid⟩ := h.known id other hget
        exact ⟨before, Heap.getElem?_append_iff.mpr (Or.inl hbefore), hid⟩
    · rw [OrderedMap.get_delete] at hget
      split at hget
      · cases hget
      · rename_i hne
        obtain ⟨hknown', before, hbefore, hidle⟩ := h.idle id other hget
        exact ⟨(OrderedMap.get_set_of_ne _ _ hne).trans hknown', before,
          Heap.getElem?_append_iff.mpr (Or.inl hbefore), hidle⟩
    · rcases Heap.getElem?_append_iff.mp hafter with hold | ⟨-, rfl⟩
      · exact Nat.lt_succ_of_lt (h.numbered other after hold)
      · exact Nat.lt_succ_self _
    · rcases Heap.getElem?_append_iff.mp hafter with hold | ⟨rfl, rfl⟩
      · rcases Heap.getElem?_append_iff.mp hafter' with hold' | ⟨rfl, rfl⟩
        · exact h.apart first second after after' hold hold' hsame
        · have hlt := h.numbered first after hold
          simp only at hsame
          omega
      · rcases Heap.getElem?_append_iff.mp hafter' with hold' | ⟨rfl, -⟩
        · have hlt := h.numbered second after' hold'
          simp only at hsame
          omega
        · rfl

end

-- A tracked call under a session.
def Transport.inSession (s : Transport) (session : Nat) (entry : RequestId × Nat) : Bool :=
  (s.calls[entry.2]?).any fun found => found.session == some session

-- What a call has of the session it is under, or for itself.
structure ToolCall.Placed (table : SessionTable) (found : ToolCall) : Prop where
  numbered : found.numbering < table.numberings
  shared : ∀ session, found.session = some session → ∃ own, table.heap[session]? = some own ∧
    own.numbering = found.numbering ∧ own.hostCapability = found.hostCapability
  alone : found.session = none → ∀ (session : Nat) (other : ToolSession), table.heap[session]? = some other →
    other.numbering ≠ found.numbering

structure Serves (s : Transport) : Prop where
  table : s.sessions.Kept
  bounded : s.sessions.idle.entries.length ≤ MAX_IDLE_SESSIONS
  live : ∀ (session : Nat) (found : ToolSession), s.sessions.heap[session]? = some found →
    (s.tracked.entries.countP (s.inSession session) : Int) ≤ found.live
  known : ∀ (id : RequestId) (call : Nat) (found : ToolCall) (session : Nat), s.tracked.get id = some call →
    s.calls[call]? = some found → found.session = some session →
      ∃ own, s.sessions.heap[session]? = some own ∧ s.sessions.known.get own.sessionId = some session
  placed : ∀ (call : Nat) (found : ToolCall), s.calls[call]? = some found → found.Placed s.sessions
  alone : ∀ (call other : Nat) (found found' : ToolCall), s.calls[call]? = some found → s.calls[other]? = some found' →
    found.session = none → found.numbering = found'.numbering → call = other

section

variable {config : TransportConfig} {s s' : Transport} {call : Nat} {found : ToolCall} {change : ToolCall → ToolCall}

theorem ToolCall.Placed.later {before after : SessionTable} (h : found.Placed before) (hlater : before.Later after) :
    found.Placed after := by
  refine ⟨Nat.lt_of_lt_of_le h.numbered hlater.numberings, fun session hsession => ?_, fun hnone session other hother => ?_⟩
  · obtain ⟨own, hown, hnumbering, hcapability⟩ := h.shared session hsession
    obtain ⟨own', hown', hsame⟩ := hlater.sessions session own hown
    exact ⟨own', hown', hsame.numbering.trans hnumbering, hsame.hostCapability.trans hcapability⟩
  · rcases hlater.fresh session other hother with ⟨first, hfirst, hsame⟩ | hnew
    · rw [hsame.numbering]
      exact h.alone hnone session first hfirst
    · have hlt := h.numbered
      omega

-- What changes one call, and nothing of its session.
structure SameSession (change : ToolCall → ToolCall) : Prop where
  session : ∀ found, (change found).session = found.session
  numbering : ∀ found, (change found).numbering = found.numbering
  hostCapability : ∀ found, (change found).hostCapability = found.hostCapability

theorem any_modify {calls : List ToolCall} (h : SameSession change) (call other session : Nat) :
    ((calls.modify call change)[other]?).any (fun found => found.session == some session) =
      (calls[other]?).any (fun found => found.session == some session) := by
  rw [List.getElem?_modify]
  cases calls[other]? with
  | none => rfl
  | some found =>
      by_cases hsame : call = other
      · simp [hsame, h.session]
      · simp [hsame]

theorem ToolCall.Placed.same {after : ToolCall} {table : SessionTable} (h : found.Placed table)
    (hsession : after.session = found.session) (hnumbering : after.numbering = found.numbering)
    (hcapability : after.hostCapability = found.hostCapability) : after.Placed table := by
  refine ⟨hnumbering ▸ h.numbered, fun session hs => ?_, fun hnone session other hother => ?_⟩
  · rw [hnumbering, hcapability]
    exact h.shared session (hsession ▸ hs)
  · rw [hnumbering]
    exact h.alone (hsession ▸ hnone) session other hother

-- The calls, the tracked ones among them and the sessions, each as they were or less.
theorem Serves.update (h : Serves s) (hcalls : s'.calls = s.calls.modify call change) (hchange : SameSession change)
    (htable : s'.sessions.Kept) (hbounded : s'.sessions.idle.entries.length ≤ MAX_IDLE_SESSIONS)
    (hlater : s.sessions.Later s'.sessions)
    (hlive : ∀ (session : Nat) (found' : ToolSession), s'.sessions.heap[session]? = some found' →
      (s'.tracked.entries.countP (s.inSession session) : Int) ≤ found'.live)
    (hknown : ∀ (id : RequestId) (other : Nat) (before : ToolCall) (session : Nat), s'.tracked.get id = some other →
      s.calls[other]? = some before → before.session = some session →
        ∃ own, s'.sessions.heap[session]? = some own ∧ s'.sessions.known.get own.sessionId = some session) : Serves s' := by
  have hback {other : Nat} {after : ToolCall} (hafter : s'.calls[other]? = some after) :
      ∃ before, s.calls[other]? = some before ∧ after.session = before.session ∧ after.numbering = before.numbering ∧
        after.hostCapability = before.hostCapability := by
    rw [hcalls] at hafter
    obtain ⟨before, hbefore, rfl⟩ := Heap.getElem?_modify_iff.mp hafter
    refine ⟨before, hbefore, ?_⟩
    split
    · exact ⟨hchange.session before, hchange.numbering before, hchange.hostCapability before⟩
    · exact ⟨rfl, rfl, rfl⟩
  refine ⟨htable, hbounded, fun session found' hfound' => ?_, fun id other after session hget hafter hsession => ?_,
    fun other after hafter => ?_, fun first second after after' hafter hafter' hnone hsame => ?_⟩
  · have hsame : s'.inSession session = s.inSession session := by
      funext entry
      unfold Transport.inSession
      rw [hcalls, any_modify hchange]
    rw [hsame]
    exact hlive session found' hfound'
  · obtain ⟨before, hbefore, hs, -⟩ := hback hafter
    exact hknown id other before session hget hbefore (hs ▸ hsession)
  · obtain ⟨before, hbefore, hs, hn, hc⟩ := hback hafter
    exact ((h.placed other before hbefore).later hlater).same hs hn hc
  · obtain ⟨before, hbefore, hs, hn, -⟩ := hback hafter
    obtain ⟨before', hbefore', -, hn', -⟩ := hback hafter'
    exact h.alone first second before before' hbefore hbefore' (hs ▸ hnone) (by rw [← hn, ← hn', hsame])

theorem Serves.modify (h : Serves s) (hcalls : s'.calls = s.calls.modify call change) (hchange : SameSession change)
    (hsessions : s'.sessions = s.sessions) (htracked : s'.tracked = s.tracked) : Serves s' := by
  refine h.update hcalls hchange (hsessions ▸ h.table) (hsessions ▸ h.bounded) (hsessions ▸ .refl _)
    (fun session found' hfound' => ?_) fun id other before session hget hbefore hsession => ?_
  · rw [htracked]
    exact h.live session found' (hsessions ▸ hfound')
  · rw [hsessions]
    exact h.known id other before session (htracked ▸ hget) hbefore hsession

theorem Serves.congr (h : Serves s) (hcalls : s'.calls = s.calls) (hsessions : s'.sessions = s.sessions)
    (htracked : s'.tracked = s.tracked) : Serves s' := by
  have hsame : s'.calls = s.calls.modify 0 id := by rw [hcalls, List.modify_id]
  exact h.modify hsame ⟨fun _ => rfl, fun _ => rfl, fun _ => rfl⟩ hsessions htracked

-- A tracked call counts in its session.
theorem inSession_of {id : RequestId} {session : Nat} (hcall : s.calls[call]? = some found)
    (hsession : found.session = some session) : s.inSession session (id, call) = true := by
  unfold Transport.inSession
  simp only [hcall]
  simp [hsession]

-- A call at its end leaves its session.
theorem Serves.leaves (h : Serves s) (hcall : s.calls[call]? = some found)
    (htracked : s.tracked.get found.originalId = some call) (final : Bool)
    (hcalls : s'.calls = s.calls.modify call change) (hchange : SameSession change)
    (hsessions : s'.sessions = s.leaveSession found final) (hleft : s'.tracked = s.tracked.delete found.originalId) :
    Serves s' := by
  have hkept {id : RequestId} {other : Nat} (hget : s'.tracked.get id = some other) : s.tracked.get id = some other := by
    rw [hleft, OrderedMap.get_delete] at hget
    split at hget
    · cases hget
    · exact hget
  have hfewer (session : Nat) : s'.tracked.entries.countP (s.inSession session) ≤
      s.tracked.entries.countP (s.inSession session) := hleft ▸ OrderedMap.countP_delete_le _ s.tracked _
  cases hsession : found.session with
  | none =>
      have hsame : s'.sessions = s.sessions := by
        rw [hsessions]
        unfold leaveSession
        rw [hsession]
      refine h.update hcalls hchange (hsame ▸ h.table) (hsame ▸ h.bounded) (hsame ▸ .refl _)
        (fun session found' hfound' => ?_) fun id other before session hget hbefore hs => ?_
      · have hlive := h.live session found' (hsame ▸ hfound')
        have hless := hfewer session
        omega
      · rw [hsame]
        exact h.known id other before session (hkept hget) hbefore hs
  | some session =>
      obtain ⟨own, hown, hknown⟩ := h.known _ call found session htracked hcall hsession
      have hsame : s'.sessions = s.sessions.leave session final := by
        rw [hsessions]
        unfold leaveSession
        rw [hsession]
      obtain ⟨htable, hbounded, hdrops⟩ := leave_kept h.table h.bounded hown hknown final
      rw [← hsame] at htable hbounded hdrops
      have hlater := (@later_of_modify s.sessions session (fun found => { found with live := found.live - 1 })
        fun _ => ⟨rfl, rfl, rfl, fun _ h => h⟩).trans hdrops.later
      have hone : s'.tracked.entries.countP (s.inSession session) < s.tracked.entries.countP (s.inSession session) :=
        hleft ▸ OrderedMap.countP_delete_lt htracked (inSession_of hcall hsession)
      have hlive (other : Nat) (found' : ToolSession) (hfound' : s'.sessions.heap[other]? = some found') :
          (s'.tracked.entries.countP (s.inSession other) : Int) ≤ found'.live := by
        rw [hdrops.heap] at hfound'
        obtain ⟨before, hbefore, rfl⟩ := Heap.getElem?_modify_iff.mp hfound'
        have hlive := h.live other before hbefore
        have hless := hfewer other
        by_cases hs : session = other
        · subst hs
          rw [if_pos rfl]
          dsimp only
          omega
        · rw [if_neg hs]
          omega
      refine h.update hcalls hchange htable hbounded hlater hlive fun id other before session' hget hbefore hs => ?_
      obtain ⟨own', hown', hknown'⟩ := h.known id other before session' (hkept hget) hbefore hs
      obtain ⟨after, hafter, hsame'⟩ := hlater.sessions session' own' hown'
      refine ⟨after, hafter, ?_⟩
      rw [hsame'.sessionId]
      rcases hdrops.kept _ _ hknown' with hstays | ⟨gone, hgone, hidle⟩
      · exact hstays
      · have hcounts : 0 < s'.tracked.entries.countP (s.inSession session') :=
          List.countP_pos_iff.mpr ⟨(id, other), OrderedMap.mem_of_get hget, inSession_of hbefore hs⟩
        have hserved := hlive session' gone (hdrops.heap ▸ hgone)
        omega

end

section

variable {config : TransportConfig} {s s' : Transport} {call : Nat} {found : ToolCall}

-- A new request, in the session it carries or in none.
theorem opened_cases (s : Transport) (frame : JsonRpcFrame) (id : RequestId) :
    ((s.opened frame id).1.session = none ∧ (s.opened frame id).1.numbering = s.sessions.numberings ∧
        (s.opened frame id).2 = { s.sessions with numberings := s.sessions.numberings + 1 }) ∨
      ∃ sessionId declared, (s.opened frame id).2 = (s.sessions.acquire sessionId declared).1 ∧
        (s.opened frame id).1.session = some (s.sessions.acquire sessionId declared).2.1 ∧
        (s.opened frame id).1.numbering = (s.sessions.acquire sessionId declared).2.2.numbering ∧
        (s.opened frame id).1.hostCapability = (s.sessions.acquire sessionId declared).2.2.hostCapability := by
  unfold opened
  cases issuedSession frame with
  | none => exact Or.inl ⟨rfl, rfl, rfl⟩
  | some sessionId => exact Or.inr ⟨sessionId, s.declaredBy frame, rfl, rfl, rfl, rfl⟩

theorem opens_counts (hwired : Wired s) (frame : JsonRpcFrame) (id : RequestId) (session : Nat) :
    (s.takeCall frame id).tracked.entries.countP ((s.takeCall frame id).inSession session) ≤
      s.tracked.entries.countP (s.inSession session) +
        if (s.opened frame id).1.session = some session then 1 else 0 := by
  have hinsert := OrderedMap.countP_insert_le ((s.takeCall frame id).inSession session) s.tracked.entries id
    s.calls.length
  have hold : s.tracked.entries.countP ((s.takeCall frame id).inSession session) =
      s.tracked.entries.countP (s.inSession session) := by
    apply List.countP_congr
    rintro ⟨other, index⟩ hmem
    obtain ⟨before, hbefore, -⟩ := hwired.tracked other index ((OrderedMap.mem_entries_iff hwired.distinct _ _).mp hmem)
    have hafter : (s.takeCall frame id).calls[index]? = some before := Heap.getElem?_append_iff.mpr (Or.inl hbefore)
    unfold Transport.inSession
    rw [hafter, hbefore]
  have hnew : (s.takeCall frame id).inSession session (id, s.calls.length) =
      decide ((s.opened frame id).1.session = some session) := by
    have hlast : (s.takeCall frame id).calls[s.calls.length]? = some (s.opened frame id).1 :=
      Heap.getElem?_append_iff.mpr (Or.inr ⟨rfl, rfl⟩)
    unfold Transport.inSession
    rw [hlast, Option.any_some]
    exact (Bool.beq_eq_decide_eq _ _)
  rw [hold, hnew] at hinsert
  simp only [decide_eq_true_eq] at hinsert
  exact hinsert

theorem Serves.opens (h : Serves s) (hwired : Wired s) (frame : JsonRpcFrame) (id : RequestId) :
    Serves (s.takeCall frame id) := by
  have hcounts := opens_counts hwired frame id
  have hcalls : (s.takeCall frame id).calls = s.calls ++ [(s.opened frame id).1] := rfl
  have hget (other : RequestId) (index : Nat) (hother : (s.takeCall frame id).tracked.get other = some index) :
      (index = s.calls.length ∨ s.tracked.get other = some index) := by
    change (s.tracked.set id s.calls.length).get other = some index at hother
    rw [OrderedMap.get_set] at hother
    split at hother
    · exact Or.inl (Option.some_inj.mp hother).symm
    · exact Or.inr hother
  have htracked (other : RequestId) (index : Nat) (hother : s.tracked.get other = some index) : index < s.calls.length := by
    obtain ⟨before, hbefore, -⟩ := hwired.tracked other index hother
    exact Heap.lt_of_getElem? hbefore
  rcases opened_cases s frame id with ⟨hnone, hnumbering, hsessions⟩ | ⟨sessionId, declared, hsessions, hsession, hnumbering, hcapability⟩
  · have hsame : (s.takeCall frame id).sessions = { s.sessions with numberings := s.sessions.numberings + 1 } := hsessions
    have hlater : s.sessions.Later (s.takeCall frame id).sessions := by
      rw [hsame]
      exact ⟨fun _ found hfound => ⟨found, hfound, .refl found⟩, fun _ found hfound => Or.inl ⟨found, hfound, .refl found⟩,
        Nat.le_succ _⟩
    refine ⟨?_, hsame ▸ h.bounded, fun session own hown => ?_, fun other index after session hother hafter hs => ?_,
      fun index after hafter => ?_, fun first second after after' hafter hafter' hs hn => ?_⟩
    · rw [hsame]
      exact ⟨h.table.knownDistinct, h.table.idleDistinct, h.table.known, h.table.idle,
        fun session own hown => Nat.lt_succ_of_lt (h.table.numbered session own hown), h.table.apart⟩
    · rw [hsame] at hown
      have hlive := h.live session own hown
      have hless := hcounts session
      rw [hnone, if_neg (by simp)] at hless
      omega
    · rw [hsame]
      rcases Heap.getElem?_append_iff.mp hafter with hold | ⟨-, rfl⟩
      · rcases hget other index hother with rfl | hbefore
        · have hlt := Heap.lt_of_getElem? hold
          omega
        · exact h.known other index after session hbefore hold hs
      · rw [hnone] at hs
        cases hs
    · rcases Heap.getElem?_append_iff.mp hafter with hold | ⟨-, rfl⟩
      · exact (h.placed index after hold).later hlater
      · refine ⟨?_, fun session hs => ?_, fun _ session other hother hsame' => ?_⟩
        · rw [hsame, hnumbering]
          exact Nat.lt_succ_self _
        · rw [hnone] at hs
          cases hs
        · rw [hsame] at hother
          have hlt := h.table.numbered session other hother
          omega
    · rcases Heap.getElem?_append_iff.mp hafter with hold | ⟨rfl, rfl⟩
      · rcases Heap.getElem?_append_iff.mp hafter' with hold' | ⟨rfl, rfl⟩
        · exact h.alone first second after after' hold hold' hs hn
        · have hlt := (h.placed first after hold).numbered
          omega
      · rcases Heap.getElem?_append_iff.mp hafter' with hold' | ⟨rfl, -⟩
        · have hlt := (h.placed second after' hold').numbered
          omega
        · rfl
  · have hsame : (s.takeCall frame id).sessions = (s.sessions.acquire sessionId declared).1 := hsessions
    have hlater : s.sessions.Later (s.takeCall frame id).sessions := hsame ▸ acquire_later h.table sessionId declared
    -- The session acquired, as the table has it afterwards.
    have hacquired : ∃ own, (s.takeCall frame id).sessions.heap[(s.sessions.acquire sessionId declared).2.1]? = some own ∧
        own.numbering = (s.sessions.acquire sessionId declared).2.2.numbering ∧
        own.hostCapability = (s.sessions.acquire sessionId declared).2.2.hostCapability ∧
        (s.takeCall frame id).sessions.known.get own.sessionId = some (s.sessions.acquire sessionId declared).2.1 := by
      rw [hsame]
      rcases acquire_cases h.table sessionId declared with ⟨session, own, hknown, hown, heq⟩ | ⟨hknown, heq⟩
      · rw [heq]
        refine ⟨_, Heap.modify_self hown, rfl, rfl, ?_⟩
        change s.sessions.known.get own.sessionId = some session
        rw [h.table.same hknown hown]
        exact hknown
      · rw [heq]
        exact ⟨_, Heap.getElem?_append_iff.mpr (Or.inr ⟨rfl, rfl⟩), rfl, rfl, OrderedMap.get_set_self ..⟩
    have hkept (index : Nat) (own : ToolSession) (hown : s.sessions.heap[index]? = some own)
        (hknown : s.sessions.known.get own.sessionId = some index) : ∃ own',
          (s.takeCall frame id).sessions.heap[index]? = some own' ∧
            (s.takeCall frame id).sessions.known.get own'.sessionId = some index := by
      obtain ⟨own', hown', hl⟩ := hlater.sessions index own hown
      refine ⟨own', hown', ?_⟩
      rw [hl.sessionId, hsame]
      rcases acquire_cases h.table sessionId declared with ⟨session, first, -, -, heq⟩ | ⟨hfree, heq⟩
      · rw [heq]
        exact hknown
      · rw [heq]
        refine (OrderedMap.get_set_of_ne _ _ fun hid => ?_).trans hknown
        rw [hid, hknown] at hfree
        cases hfree
    refine ⟨hsame ▸ acquire_kept h.table sessionId declared, ?_, fun session own hown => ?_,
      fun other index after session hother hafter hs => ?_, fun index after hafter => ?_,
      fun first second after after' hafter hafter' hs hn => ?_⟩
    · rw [hsame]
      have hless := OrderedMap.countP_delete_le (fun _ => true) s.sessions.idle sessionId
      simp only [List.countP_true] at hless
      rcases acquire_cases h.table sessionId declared with ⟨_, _, -, -, heq⟩ | ⟨-, heq⟩
      · rw [heq]
        exact hless.trans h.bounded
      · rw [heq]
        exact hless.trans h.bounded
    · have hless := hcounts session
      rw [hsession] at hless
      rw [hsame] at hown
      rcases acquire_cases h.table sessionId declared with ⟨index, first, -, hfirst, heq⟩ | ⟨-, heq⟩
      · rw [heq] at hown hless
        obtain ⟨before, hbefore, rfl⟩ := Heap.getElem?_modify_iff.mp hown
        have hlive := h.live session before hbefore
        by_cases hs : index = session
        · rw [if_pos (congrArg some hs)] at hless
          rw [if_pos hs]
          dsimp only
          omega
        · rw [if_neg fun hsome => hs (Option.some_inj.mp hsome)] at hless
          rw [if_neg hs]
          omega
      · rw [heq] at hown hless
        rcases Heap.getElem?_append_iff.mp hown with hold | ⟨rfl, rfl⟩
        · have hlive := h.live session own hold
          have hlt := Heap.lt_of_getElem? hold
          rw [if_neg fun hsome => (Nat.ne_of_gt hlt) (Option.some_inj.mp hsome)] at hless
          omega
        · rw [if_pos rfl] at hless
          have hzero : s.tracked.entries.countP (s.inSession s.sessions.heap.length) = 0 := by
            rw [List.countP_eq_zero]
            rintro ⟨other, index⟩ hmem hin
            obtain ⟨before, hbefore, -⟩ := hwired.tracked other index
              ((OrderedMap.mem_entries_iff hwired.distinct _ _).mp hmem)
            unfold Transport.inSession at hin
            simp only [hbefore, Option.any_some, beq_iff_eq] at hin
            obtain ⟨own, hown, -⟩ := (h.placed index before hbefore).shared _ hin
            have hlt := Heap.lt_of_getElem? hown
            omega
          dsimp only
          omega
    · rcases Heap.getElem?_append_iff.mp hafter with hold | ⟨-, rfl⟩
      · rcases hget other index hother with rfl | hbefore
        · have hlt := Heap.lt_of_getElem? hold
          omega
        · obtain ⟨own, hown, hknown⟩ := h.known other index after session hbefore hold hs
          exact hkept session own hown hknown
      · obtain ⟨own, hown, -, -, hknown⟩ := hacquired
        rw [hsession, Option.some_inj] at hs
        exact ⟨own, hs ▸ hown, hs ▸ hknown⟩
    · rcases Heap.getElem?_append_iff.mp hafter with hold | ⟨-, rfl⟩
      · exact (h.placed index after hold).later hlater
      · obtain ⟨own, hown, hn, hc, -⟩ := hacquired
        refine ⟨?_, fun session hs => ?_, fun hnone => ?_⟩
        · rw [hnumbering, ← hn]
          exact (hsame ▸ acquire_kept h.table sessionId declared : (s.takeCall frame id).sessions.Kept).numbered _ own hown
        · rw [hsession, Option.some_inj] at hs
          exact ⟨own, hs ▸ hown, hn.trans hnumbering.symm, hc.trans hcapability.symm⟩
        · rw [hsession] at hnone
          cases hnone
    · have hapart (index : Nat) (before : ToolCall) (hbefore : s.calls[index]? = some before) (hnone : before.session = none) :
          before.numbering ≠ (s.opened frame id).1.numbering := by
        obtain ⟨own, hown, hn', -⟩ := hacquired
        rw [hnumbering, ← hn']
        exact fun heq => ((h.placed index before hbefore).later hlater).alone hnone _ own hown heq.symm
      rcases Heap.getElem?_append_iff.mp hafter with hold | ⟨rfl, rfl⟩
      · rcases Heap.getElem?_append_iff.mp hafter' with hold' | ⟨rfl, rfl⟩
        · exact h.alone first second after after' hold hold' hs hn
        · exact absurd hn (hapart first after hold hs)
      · rw [hsession] at hs
        cases hs

-- What `negotiate` makes of the sessions: the result is pinned to the call's, where it has none yet.
theorem negotiate_sessions {offered : AuditCapability} {result : NegotiationResult}
    (hresult : s.negotiate config call found offered = .ok (result, s')) :
    sameCapability offered config.declares = true ∧
      ((∃ session own, found.session = some session ∧ s.sessions.heap[session]? = some own ∧
          own.negotiation = some result ∧ s'.sessions = s.sessions) ∨
        (∃ session, found.session = some session ∧ s'.sessions = s.sessions.pin session result ∧
          (∀ own, s.sessions.heap[session]? = some own → own.negotiation = none) ∧
          (result.negotiated = true → (Mcp.negotiate found.hostCapability offered).negotiated = true)) ∨
        (found.session = none ∧ s'.sessions = s.sessions ∧ result.negotiated = false)) := by
  unfold Transport.negotiate at hresult
  by_cases hsame : (!sameCapability offered config.declares) = true
  · rw [if_pos hsame] at hresult
    cases hresult
  · rw [if_neg hsame] at hresult
    refine ⟨by simpa using hsame, ?_⟩
    by_cases hseen : (!found.modern && !s.handshakeSeen) = true
    · rw [if_pos hseen] at hresult
      cases hresult
    · rw [if_neg hseen] at hresult
      cases hpinned : found.session.bind (fun session => (s.sessions.heap[session]?).bind ToolSession.negotiation) with
      | some pinned =>
          rw [hpinned] at hresult
          obtain ⟨rfl, rfl⟩ := Prod.mk.inj (Except.ok.inj hresult)
          obtain ⟨session, hsession, hbind⟩ := Option.bind_eq_some_iff.mp hpinned
          obtain ⟨own, hown, hnegotiation⟩ := Option.bind_eq_some_iff.mp hbind
          exact Or.inl ⟨session, own, hsession, hown, hnegotiation, rfl⟩
      | none =>
          rw [hpinned] at hresult
          obtain ⟨hr, rfl⟩ := Prod.mk.inj (Except.ok.inj hresult)
          refine Or.inr ?_
          cases hsession : found.session with
          | some session =>
              refine Or.inl ⟨session, rfl, ?_, fun own hown => ?_, fun hnegotiated => ?_⟩
              · rw [← hr, hsession]
                rfl
              · rw [hsession] at hpinned
                simpa [hown] using hpinned
              · rw [← hr] at hnegotiated
                split at hnegotiated
                · cases hnegotiated
                · exact hnegotiated
          | none =>
              refine Or.inr ⟨rfl, rfl, ?_⟩
              rw [← hr, hsession]
              cases hc : (Mcp.negotiate found.hostCapability offered).negotiated with
              | false => simp [hc]
              | true => simp

theorem pin_later (table : SessionTable) (session : Nat) (result : NegotiationResult)
    (hfree : ∀ own, table.heap[session]? = some own → own.negotiation = none) : table.Later (table.pin session result) := by
  have hone (other : Nat) (own : ToolSession) (hown : table.heap[other]? = some own) :
      ∃ own', (table.pin session result).heap[other]? = some own' ∧ own.Later own' := by
    by_cases hsame : session = other
    · subst hsame
      refine ⟨_, Heap.modify_self hown, rfl, rfl, rfl, fun old hold => ?_⟩
      rw [hfree own hown] at hold
      cases hold
    · exact ⟨own, Heap.modify_other hown hsame, .refl own⟩
  refine ⟨hone, fun other own' hown' => Or.inl ?_, Nat.le_refl _⟩
  obtain ⟨own, hown, -⟩ := Heap.getElem?_modify_iff.mp hown'
  obtain ⟨own'', hown'', hlater⟩ := hone other own hown
  obtain rfl := Option.some_inj.mp (hown'.symm.trans hown'')
  exact ⟨own, hown, hlater⟩

theorem pin_kept {table : SessionTable} (h : table.Kept) (session : Nat) (result : NegotiationResult) :
    (table.pin session result).Kept := by
  have hnumbering (own : ToolSession) (other : Nat) :
      (if session = other then { own with negotiation := some result } else own).numbering = own.numbering := by
    split <;> rfl
  refine ⟨h.knownDistinct, h.idleDistinct, fun id other hget => ?_, fun id other hget => ?_, fun other own hown => ?_,
    fun first second own own' hown hown' hsame => ?_⟩
  · obtain ⟨own, hown, hid⟩ := h.known id other hget
    refine ⟨_, Heap.getElem?_modify_iff.mpr ⟨own, hown, rfl⟩, ?_⟩
    split <;> exact hid
  · obtain ⟨hknown, own, hown, hidle⟩ := h.idle id other hget
    refine ⟨hknown, _, Heap.getElem?_modify_iff.mpr ⟨own, hown, rfl⟩, ?_⟩
    split <;> exact hidle
  · obtain ⟨before, hbefore, rfl⟩ := Heap.getElem?_modify_iff.mp hown
    rw [hnumbering]
    exact h.numbered other before hbefore
  · obtain ⟨before, hbefore, rfl⟩ := Heap.getElem?_modify_iff.mp hown
    obtain ⟨before', hbefore', rfl⟩ := Heap.getElem?_modify_iff.mp hown'
    rw [hnumbering, hnumbering] at hsame
    exact h.apart first second before before' hbefore hbefore' hsame

theorem negotiate_later {offered : AuditCapability} {result : NegotiationResult}
    (hresult : s.negotiate config call found offered = .ok (result, s')) : s.sessions.Later s'.sessions := by
  obtain ⟨-, ⟨session, own, -, -, -, hsame⟩ | ⟨session, -, hsame, hfree, -⟩ | ⟨-, hsame, -⟩⟩ := negotiate_sessions hresult
  · exact hsame ▸ .refl _
  · exact hsame ▸ pin_later s.sessions session result hfree
  · exact hsame ▸ .refl _

theorem Serves.negotiates (h : Serves s) {offered : AuditCapability} {result : NegotiationResult}
    (hresult : s.negotiate config call found offered = .ok (result, s')) : Serves s' := by
  have hlater := negotiate_later hresult
  have hcases := (negotiate_sessions hresult).2
  obtain ⟨sessions, rfl⟩ := negotiate_eq hresult
  have hchange : SameSession fun found : ToolCall => { found with negotiated := result.negotiated } :=
    ⟨fun _ => rfl, fun _ => rfl, fun _ => rfl⟩
  rcases hcases with ⟨session, own, -, -, -, hsame⟩ | ⟨session, -, hsame, hfree, -⟩ | ⟨-, hsame, -⟩
  · exact h.modify rfl hchange hsame rfl
  · change sessions = s.sessions.pin session result at hsame
    subst hsame
    refine h.update rfl hchange (pin_kept h.table session result) h.bounded hlater (fun other own hown => ?_)
      fun id other before session' hget hbefore hs => ?_
    · obtain ⟨before, hbefore, rfl⟩ := Heap.getElem?_modify_iff.mp hown
      split <;> exact h.live other before hbefore
    · obtain ⟨own, hown, hknown⟩ := h.known id other before session' hget hbefore hs
      obtain ⟨own', hown', hl⟩ := hlater.sessions session' own hown
      exact ⟨own', hown', hl.sessionId ▸ hknown⟩
  · exact h.modify rfl hchange hsame rfl

theorem Serves.cancel (h : Serves s) (call : Nat) :
    Serves ((s.alter call fun found => { found with cancelled := true }).release call true) := by
  cases hcall : s.calls[call]? with
  | none =>
      rw [cancel_none hcall]
      exact h
  | some found =>
      by_cases htracked : s.tracked.get found.originalId = some call
      · rw [cancel_eq hcall htracked]
        exact h.leaves hcall htracked true rfl ⟨fun _ => rfl, fun _ => rfl, fun _ => rfl⟩ rfl rfl
      · rw [cancel_untracked hcall htracked]
        exact h.modify rfl ⟨fun _ => rfl, fun _ => rfl, fun _ => rfl⟩ rfl rfl

theorem dropAll_kept {table : SessionTable} (h : table.Kept) : table.dropAll.Kept ∧ table.dropAll.heap = table.heap ∧
    table.dropAll.numberings = table.numberings ∧ table.dropAll.idle.entries.length ≤ table.idle.entries.length := by
  unfold SessionTable.dropAll
  generalize table.known.entries = entries
  induction entries generalizing table with
  | nil => exact ⟨h, rfl, rfl, Nat.le_refl _⟩
  | cons entry rest ih =>
      have hsame : (table.drop entry.2).heap = table.heap ∧ (table.drop entry.2).numberings = table.numberings := by
        unfold SessionTable.drop
        split
        · exact ⟨rfl, rfl⟩
        · split <;> exact ⟨rfl, rfl⟩
      obtain ⟨hkept, hheap, hnumberings, hless⟩ := ih (drop_kept h entry.2)
      exact ⟨hkept, hheap.trans hsame.1, hnumberings.trans hsame.2, hless.trans (drop_idle_le table entry.2)⟩

theorem Serves.dropsAll (h : Serves s) (hnone : s.tracked.entries = []) :
    Serves { s with sessions := s.sessions.dropAll } := by
  obtain ⟨hkept, hheap, hnumberings, hless⟩ := dropAll_kept h.table
  have hlater : s.sessions.Later s.sessions.dropAll := by
    refine ⟨fun session own hown => ⟨own, hheap ▸ hown, .refl own⟩, fun session own hown => Or.inl ?_,
      Nat.le_of_eq hnumberings.symm⟩
    exact ⟨own, hheap ▸ hown, .refl own⟩
  have hsame : s.calls = s.calls.modify 0 id := (List.modify_id ..).symm
  refine h.update hsame ⟨fun _ => rfl, fun _ => rfl, fun _ => rfl⟩ hkept (hless.trans h.bounded) hlater
    (fun session own hown => ?_) fun id other before session hget _ _ => ?_
  · exact h.live session own (hheap ▸ hown)
  · have hmem := OrderedMap.mem_of_get hget
    change (id, other) ∈ s.tracked.entries at hmem
    rw [hnone] at hmem
    cases hmem

theorem Move.serves (hmove : Move config s s') (hwired : Wired s) (h : Serves s) : Serves s' := by
  have hkeeps {change : ToolCall → ToolCall} (hs : ∀ found, (change found).session = found.session)
      (hn : ∀ found, (change found).numbering = found.numbering)
      (hc : ∀ found, (change found).hostCapability = found.hostCapability) : SameSession change := ⟨hs, hn, hc⟩
  cases hmove with
  | aside haside => exact h.congr haside.calls haside.sessions haside.tracked
  | opens frame id => exact h.opens hwired frame id
  | negotiates hcall hresult => exact h.negotiates hresult
  | notes event hcall hlost => exact h.modify rfl (hkeeps (fun _ => rfl) (fun _ => rfl) fun _ => rfl) rfl rfl
  | waits hcall hnegotiated hattempt hmodern hfinished hcancelled =>
      rw [waits_eq hcall hmodern hfinished hcancelled]
      exact h.modify rfl (hkeeps (fun _ => rfl) (fun _ => rfl) fun _ => rfl) rfl rfl
  | buffers hcall hnegotiated hmodern hfinished hcancelled =>
      rw [buffers_eq hcall hmodern hfinished hcancelled]
      exact h.modify rfl (hkeeps (fun _ => rfl) (fun _ => rfl) fun _ => rfl) rfl rfl
  | tells event frame hcall hnegotiated => exact h.congr rfl rfl rfl
  | asks event hcall hmodern => exact h.congr rfl rfl rfl
  | endsRound scheduled hcall hopen hround hbuffered hfresh htracked =>
      exact h.modify rfl (hkeeps (fun _ => rfl) (fun _ => rfl) fun _ => rfl) rfl rfl
  | unschedules hcall hidle => exact h.modify rfl (hkeeps (fun _ => rfl) (fun _ => rfl) fun _ => rfl) rfl rfl
  | resumes id frame hopen =>
      obtain ⟨-, ⟨before, hcall, -⟩, -⟩ := openRound_eq_some.mp hopen
      obtain ⟨accepting, heq⟩ := resumes_eq hcall id frame
      rw [heq]
      exact h.modify rfl (hkeeps (fun _ => rfl) (fun _ => rfl) fun _ => rfl) rfl rfl
  | finishes answer hcall hfinished => exact h.modify rfl (hkeeps (fun _ => rfl) (fun _ => rfl) fun _ => rfl) rfl rfl
  | concludes answer frame hcall hfinished hcarries hanswer hsame =>
      exact h.modify rfl (hkeeps (fun _ => rfl) (fun _ => rfl) fun _ => rfl) rfl rfl
  | suspends answer inbound hcall hfinished hanswer => exact h.congr rfl rfl rfl
  | releases final hcall htracked hfinished =>
      rw [release_eq hcall htracked]
      exact h.leaves hcall htracked final rfl (hkeeps (fun _ => rfl) (fun _ => rfl) fun _ => rfl) rfl rfl
  | cancels call => exact h.cancel call
  | holds held hcall hheld => exact h.modify rfl (hkeeps (fun _ => rfl) (fun _ => rfl) fun _ => rfl) rfl rfl
  | settles hprogress => exact h.congr rfl rfl rfl
  | dropsAll hnone => exact h.dropsAll hnone

theorem TransportRun.serves {actions : List TransportAction} (hrun : TransportRun config actions s) : Serves s := by
  refine hrun.keeps ?_ fun _ _ hsound hs hmove => hmove.serves hsound.wired hs
  refine ⟨⟨List.nodup_nil, List.nodup_nil, ?_, ?_, ?_, ?_⟩, Nat.zero_le _, ?_, ?_, ?_, ?_⟩
  · intro id session hget
    cases hget
  · intro id session hget
    cases hget
  · intro session found hfound
    cases hfound
  · intro session other found found' hfound
    cases hfound
  · intro session found hfound
    cases hfound
  · intro id call found session hget
    cases hget
  · intro call found hcall
    cases hcall
  · intro call other found found' hcall
    cases hcall

end

section

variable {config : TransportConfig} {s : Transport} {actions : List TransportAction} {call other session : Nat}
  {found found' : ToolCall} {id : RequestId}

-- Two calls number their events in one sequence exactly where they carry the same audit session,
-- the session of a call in flight stays known, so that its next request finds it, and of the
-- sessions that serve no request no more are kept than the bound.
theorem sessions_shared (hrun : TransportRun config actions s) (hcall : s.calls[call]? = some found)
    (hother : s.calls[other]? = some found') :
    (found.numbering = found'.numbering ↔
      call = other ∨ (found.session.isSome = true ∧ found.session = found'.session)) ∧
      (found.session.isSome = true → found.session = found'.session → found.hostCapability = found'.hostCapability) ∧
      (∀ session, s.tracked.get id = some call → found.session = some session → ∃ own,
        s.sessions.heap[session]? = some own ∧ s.sessions.known.get own.sessionId = some session ∧
          s.sessions.idle.get own.sessionId = none) ∧
      s.sessions.idle.entries.length ≤ MAX_IDLE_SESSIONS := by
  have h := hrun.serves
  refine ⟨⟨fun hsame => ?_, ?_⟩, fun hsome hsame => ?_, fun session htracked hsession => ?_, h.bounded⟩
  · cases hsession : found.session with
    | none => exact Or.inl (h.alone call other found found' hcall hother hsession hsame)
    | some session =>
        obtain ⟨own, hown, hn, -⟩ := (h.placed call found hcall).shared session hsession
        cases hsession' : found'.session with
        | none => exact Or.inl (h.alone other call found' found hother hcall hsession' hsame.symm).symm
        | some session' =>
            obtain ⟨own', hown', hn', -⟩ := (h.placed other found' hother).shared session' hsession'
            have heq := h.table.apart session session' own own' hown hown' (by rw [hn, hn', hsame])
            exact Or.inr ⟨rfl, congrArg some heq⟩
  · rintro (rfl | ⟨hsome, hsame⟩)
    · rw [hcall, Option.some_inj] at hother
      rw [hother]
    · obtain ⟨session, hsession⟩ := Option.isSome_iff_exists.mp hsome
      obtain ⟨own, hown, hn, -⟩ := (h.placed call found hcall).shared session hsession
      obtain ⟨own', hown', hn', -⟩ := (h.placed other found' hother).shared session (hsame ▸ hsession)
      obtain rfl := Option.some_inj.mp (hown.symm.trans hown')
      exact hn.symm.trans hn'
  · obtain ⟨session, hsession⟩ := Option.isSome_iff_exists.mp hsome
    obtain ⟨own, hown, -, hc⟩ := (h.placed call found hcall).shared session hsession
    obtain ⟨own', hown', -, hc'⟩ := (h.placed other found' hother).shared session (hsame ▸ hsession)
    obtain rfl := Option.some_inj.mp (hown.symm.trans hown')
    exact hc.symm.trans hc'
  · obtain ⟨own, hown, hknown⟩ := h.known id call found session htracked hcall hsession
    refine ⟨own, hown, hknown, ?_⟩
    cases hidle : s.sessions.idle.get own.sessionId with
    | none => rfl
    | some idle =>
        obtain ⟨hknown', own', hown', hlive⟩ := h.table.idle _ idle hidle
        obtain rfl := Option.some_inj.mp (hknown.symm.trans hknown')
        obtain rfl := Option.some_inj.mp (hown.symm.trans hown')
        have hcounts : 0 < s.tracked.entries.countP (s.inSession session) :=
          List.countP_pos_iff.mpr ⟨(id, call), OrderedMap.mem_of_get htracked, inSession_of hcall hsession⟩
        have hserved := h.live session own hown
        omega

theorem sessions_shared_two : ∃ (s : Transport) (found found' : ToolCall),
    Reference.play Reference.seam Reference.twoCalls = some s ∧ s.calls[0]? = some found ∧ s.calls[1]? = some found' ∧
      found.numbering = found'.numbering := by
  have htest : (Reference.play Reference.seam Reference.twoCalls).any (fun s =>
      (s.calls[0]?).any fun found => (s.calls[1]?).any fun found' =>
        found.session.isSome && found.session == found'.session) = true := by decide +kernel
  obtain ⟨s, hplay, hrun, hstate⟩ := Reference.of_play htest
  obtain ⟨found, hcall, hrest⟩ := (Option.any_eq_true ..).mp hstate
  obtain ⟨found', hother, hsession⟩ := (Option.any_eq_true ..).mp hrest
  simp only [Bool.and_eq_true, beq_iff_eq] at hsession
  have hshared := @sessions_shared Reference.seam s _ 0 1 found found' (.num (.ofNat 1)) hrun hcall hother
  exact ⟨s, found, found', hplay, hcall, hother, hshared.1.mpr (Or.inr hsession)⟩

end

-- A host whose declaration a tool's fits.
structure Fits (host tool : AuditCapability) : Prop where
  version : tool.spec_version = host.spec_version
  level : levelRank host.level ≤ levelRank tool.level
  countersign : countersignRank tool.countersign ≤ countersignRank host.countersign

-- The host's declaration and the tool's were compared, in the session of the call, and fit.
def Audited (config : TransportConfig) (table : SessionTable) (found : ToolCall) : Prop :=
  ∃ session own result host, found.session = some session ∧ table.heap[session]? = some own ∧
    own.negotiation = some result ∧ result.negotiated = true ∧ own.hostCapability = some host ∧ Fits host config.declares

-- The frames that carry a call's events.
def Written.audits (call : Nat) : Written → Prop
  | .round other _ _ _ => other = call
  | .message other _ _ => other = call
  | .final other _ events _ => other = call ∧ events ≠ []
  | _ => False

def Pinned (config : TransportConfig) (table : SessionTable) : Prop :=
  ∀ (session : Nat) (own : ToolSession) (result : NegotiationResult), table.heap[session]? = some own →
    own.negotiation = some result → result.negotiated = true →
      ∃ host, own.hostCapability = some host ∧ Fits host config.declares

structure Audits (config : TransportConfig) (s : Transport) : Prop where
  pinned : Pinned config s.sessions
  negotiated : ∀ (call : Nat) (found : ToolCall), s.calls[call]? = some found → found.negotiated = true →
    Audited config s.sessions found
  buffered : ∀ (call : Nat) (found : ToolCall), s.calls[call]? = some found → found.buffered ≠ [] →
    Audited config s.sessions found
  written : ∀ written ∈ s.written, ∀ call, written.audits call →
    ∃ found, s.calls[call]? = some found ∧ Audited config s.sessions found

-- Sessions whose negotiations are as they were.
def SessionTable.Steady (before after : SessionTable) : Prop :=
  ∀ (session : Nat) (own' : ToolSession), after.heap[session]? = some own' → own'.negotiation = none ∨
    ∃ own, before.heap[session]? = some own ∧ own'.negotiation = own.negotiation ∧
      own'.hostCapability = own.hostCapability

section

variable {config : TransportConfig} {s s' : Transport} {call : Nat} {found : ToolCall} {change : ToolCall → ToolCall}
  {before after : SessionTable}

theorem negotiate_fits {host : Option AuditCapability} {tool : AuditCapability}
    (h : (Mcp.negotiate host tool).negotiated = true) : ∃ declared, host = some declared ∧ Fits declared tool := by
  cases host with
  | none => cases h
  | some declared =>
      refine ⟨declared, rfl, ?_⟩
      simp only [Mcp.negotiate, Bool.and_eq_true, decide_eq_true_eq, levelSatisfies, countersignSatisfies] at h
      exact ⟨h.1.1, h.1.2, h.2⟩

theorem sameCapability_eq {a b : AuditCapability} (h : sameCapability a b = true) : a = b := by
  obtain ⟨version, level, countersign⟩ := a
  simp only [sameCapability, Bool.and_eq_true, decide_eq_true_eq] at h
  obtain ⟨⟨rfl, rfl⟩, rfl⟩ := h
  rfl

theorem Pinned.steady (h : Pinned config before) (hsteady : before.Steady after) : Pinned config after := by
  intro session own' result hown' hresult hnegotiated
  rcases hsteady session own' hown' with hnone | ⟨own, hown, hsame, hcapability⟩
  · rw [hnone] at hresult
    cases hresult
  · rw [hcapability]
    exact h session own result hown (hsame ▸ hresult) hnegotiated

theorem SessionTable.Steady.refl (table : SessionTable) : table.Steady table :=
  fun _ own hown => Or.inr ⟨own, hown, rfl, rfl⟩

theorem steady_modify {session : Nat} {live : Int → Int}
    (hheap : after.heap = before.heap.modify session fun own => { own with live := live own.live }) :
    before.Steady after := by
  intro other own' hown'
  rw [hheap] at hown'
  obtain ⟨own, hown, rfl⟩ := Heap.getElem?_modify_iff.mp hown'
  refine Or.inr ⟨own, hown, ?_⟩
  split <;> exact ⟨rfl, rfl⟩

theorem Audited.later {after' : ToolCall} (h : Audited config before found) (hlater : before.Later after)
    (hsession : after'.session = found.session) : Audited config after after' := by
  obtain ⟨session, own, result, host, hs, hown, hresult, hnegotiated, hhost, hfits⟩ := h
  obtain ⟨own', hown', hl⟩ := hlater.sessions session own hown
  exact ⟨session, own', result, host, hsession.trans hs, hown', hl.negotiation result hresult, hnegotiated,
    hl.hostCapability.trans hhost, hfits⟩

-- What a call's end does to the sessions.
theorem leaveSession_steady (h : Serves s) (hcall : s.calls[call]? = some found)
    (htracked : s.tracked.get found.originalId = some call) (final : Bool) :
    s.sessions.Later (s.leaveSession found final) ∧ s.sessions.Steady (s.leaveSession found final) := by
  unfold leaveSession
  cases hsession : found.session with
  | none => exact ⟨.refl _, .refl _⟩
  | some session =>
      obtain ⟨own, hown, hknown⟩ := h.known _ call found session htracked hcall hsession
      obtain ⟨-, -, hdrops⟩ := leave_kept h.table h.bounded hown hknown final
      have hlater := @later_of_modify s.sessions session (fun own => { own with live := own.live - 1 })
        fun _ => ⟨rfl, rfl, rfl, fun _ h => h⟩
      exact ⟨hlater.trans hdrops.later, @steady_modify _ _ session (fun live => live - 1) hdrops.heap⟩

theorem opened_steady (h : Serves s) (frame : JsonRpcFrame) (id : RequestId) :
    s.sessions.Later (s.opened frame id).2 ∧ s.sessions.Steady (s.opened frame id).2 := by
  rcases opened_cases s frame id with ⟨-, -, hsessions⟩ | ⟨sessionId, declared, hsessions, -⟩
  · rw [hsessions]
    refine ⟨⟨fun _ own hown => ⟨own, hown, .refl own⟩, fun _ own hown => Or.inl ⟨own, hown, .refl own⟩, Nat.le_succ _⟩, ?_⟩
    exact fun _ own hown => Or.inr ⟨own, hown, rfl, rfl⟩
  · rw [hsessions]
    refine ⟨acquire_later h.table sessionId declared, ?_⟩
    rcases acquire_cases h.table sessionId declared with ⟨session, own, -, -, heq⟩ | ⟨-, heq⟩
    · rw [heq]
      exact @steady_modify _ _ session (fun live => live + 1) rfl
    · rw [heq]
      intro other own' hown'
      rcases Heap.getElem?_append_iff.mp hown' with hold | ⟨-, rfl⟩
      · exact Or.inr ⟨own', hold, rfl, rfl⟩
      · exact Or.inl rfl

-- A move that changes one call.
theorem Audits.update (h : Audits config s) {more : List Written} (hcalls : s'.calls = s.calls.modify call change)
    (hsession : ∀ before, (change before).session = before.session) (hlater : s.sessions.Later s'.sessions)
    (hpinned : Pinned config s'.sessions)
    (hnegotiated : ∀ before, s.calls[call]? = some before → (change before).negotiated = true →
      before.negotiated = true ∨ Audited config s'.sessions (change before))
    (hbuffered : ∀ before, s.calls[call]? = some before → (change before).buffered ≠ [] →
      before.buffered ≠ [] ∨ before.negotiated = true)
    (hwritten : s'.written = s.written ++ more)
    (hmore : ∀ written ∈ more, ∀ other, written.audits other →
      ∃ before, s.calls[other]? = some before ∧ Audited config s.sessions before) : Audits config s' := by
  have hkeeps {other : Nat} {before : ToolCall} (hbefore : s.calls[other]? = some before)
      (haudited : Audited config s.sessions before) :
      ∃ after, s'.calls[other]? = some after ∧ Audited config s'.sessions after := by
    rw [hcalls]
    by_cases hsame : call = other
    · subst hsame
      exact ⟨_, Heap.modify_self hbefore, haudited.later hlater (hsession before)⟩
    · exact ⟨before, Heap.modify_other hbefore hsame, haudited.later hlater rfl⟩
  refine ⟨hpinned, fun other after hafter hn => ?_, fun other after hafter hb => ?_, fun written hmem other haudits => ?_⟩
  · rw [hcalls] at hafter
    obtain ⟨before, hbefore, rfl⟩ := Heap.getElem?_modify_iff.mp hafter
    by_cases hsame : call = other
    · subst hsame
      rw [if_pos rfl] at hn ⊢
      rcases hnegotiated before hbefore hn with hold | hnew
      · exact (h.negotiated call before hbefore hold).later hlater (hsession before)
      · exact hnew
    · rw [if_neg hsame] at hn ⊢
      exact (h.negotiated other before hbefore hn).later hlater rfl
  · rw [hcalls] at hafter
    obtain ⟨before, hbefore, rfl⟩ := Heap.getElem?_modify_iff.mp hafter
    by_cases hsame : call = other
    · subst hsame
      rw [if_pos rfl] at hb ⊢
      rcases hbuffered before hbefore hb with hold | hnew
      · exact (h.buffered call before hbefore hold).later hlater (hsession before)
      · exact (h.negotiated call before hbefore hnew).later hlater (hsession before)
    · rw [if_neg hsame] at hb ⊢
      exact (h.buffered other before hbefore hb).later hlater rfl
  · rw [hwritten] at hmem
    rcases List.mem_append.mp hmem with hold | hnew
    · obtain ⟨before, hbefore, haudited⟩ := h.written written hold other haudits
      exact hkeeps hbefore haudited
    · obtain ⟨before, hbefore, haudited⟩ := hmore written hnew other haudits
      exact hkeeps hbefore haudited

-- Where the call's negotiation and the sessions are as they were.
theorem Audits.quiet (h : Audits config s) (hcalls : s'.calls = s.calls.modify call change)
    (hsession : ∀ before, (change before).session = before.session)
    (hnegotiated : ∀ before, (change before).negotiated = before.negotiated)
    (hbuffered : ∀ before, s.calls[call]? = some before → (change before).buffered ≠ [] →
      before.buffered ≠ [] ∨ before.negotiated = true)
    (hlater : s.sessions.Later s'.sessions) (hsteady : s.sessions.Steady s'.sessions)
    (hwritten : s'.written = s.written) : Audits config s' := by
  have hnothing : s'.written = s.written ++ [] := by rw [hwritten, List.append_nil]
  exact h.update hcalls hsession hlater (h.pinned.steady hsteady)
    (fun before _ hn => Or.inl ((hnegotiated before).symm.trans hn)) hbuffered hnothing (by simp)

theorem Audits.congr (h : Audits config s) {more : List Written} (hcalls : s'.calls = s.calls)
    (hlater : s.sessions.Later s'.sessions) (hsteady : s.sessions.Steady s'.sessions)
    (hwritten : s'.written = s.written ++ more)
    (hmore : ∀ written ∈ more, ∀ other, written.audits other →
      ∃ before, s.calls[other]? = some before ∧ Audited config s.sessions before) : Audits config s' := by
  have hsame : s'.calls = s.calls.modify 0 id := by rw [hcalls, List.modify_id]
  exact h.update hsame (fun _ => rfl) hlater (h.pinned.steady hsteady) (fun _ _ hn => Or.inl hn) (fun _ _ hb => Or.inl hb)
    hwritten hmore

-- What `negotiate` pins is a comparison of the host's declaration with this seam's.
theorem negotiate_pinned (hserves : Serves s) (hpinned : Pinned config s.sessions) (hcall : s.calls[call]? = some found)
    {offered : AuditCapability} {result : NegotiationResult}
    (hresult : s.negotiate config call found offered = .ok (result, s')) :
    Pinned config s'.sessions ∧ (result.negotiated = true → Audited config s'.sessions found) := by
  obtain ⟨hsame, hcases⟩ := negotiate_sessions hresult
  have hoffered := sameCapability_eq hsame
  rcases hcases with ⟨session, own, hsession, hown, hnegotiation, hsessions⟩ |
    ⟨session, hsession, hsessions, -, hcompared⟩ | ⟨-, hsessions, hnot⟩
  · rw [hsessions]
    refine ⟨hpinned, fun hnegotiated => ?_⟩
    obtain ⟨host, hhost, hfits⟩ := hpinned session own result hown hnegotiation hnegotiated
    exact ⟨session, own, result, host, hsession, hown, hnegotiation, hnegotiated, hhost, hfits⟩
  · rw [hsessions]
    obtain ⟨own, hown, -, hcapability⟩ := (hserves.placed call found hcall).shared session hsession
    have hfits (hnegotiated : result.negotiated = true) :
        ∃ host, own.hostCapability = some host ∧ Fits host config.declares := by
      obtain ⟨host, hhost, hfits⟩ := negotiate_fits (hcompared hnegotiated)
      exact ⟨host, hcapability.trans hhost, hoffered ▸ hfits⟩
    refine ⟨fun other own' result' hown' hresult' hnegotiated => ?_, fun hnegotiated => ?_⟩
    · obtain ⟨before, hbefore, rfl⟩ := Heap.getElem?_modify_iff.mp hown'
      by_cases hother : session = other
      · subst hother
        obtain rfl := Option.some_inj.mp (hown.symm.trans hbefore)
        rw [if_pos rfl] at hresult' ⊢
        obtain rfl := Option.some_inj.mp hresult'
        exact hfits hnegotiated
      · rw [if_neg hother] at hresult' ⊢
        exact hpinned other before result' hbefore hresult' hnegotiated
    · obtain ⟨host, hhost, hfits⟩ := hfits hnegotiated
      exact ⟨session, { own with negotiation := some result }, result, host, hsession, Heap.modify_self hown, rfl,
        hnegotiated, hhost, hfits⟩
  · rw [hsessions]
    refine ⟨hpinned, fun hnegotiated => ?_⟩
    rw [hnot] at hnegotiated
    cases hnegotiated

theorem Audits.opens (h : Audits config s) (hserves : Serves s) (frame : JsonRpcFrame) (id : RequestId) :
    Audits config (s.takeCall frame id) := by
  obtain ⟨hlater, hsteady⟩ := opened_steady hserves frame id
  have hfresh : (s.opened frame id).1.negotiated = false ∧ (s.opened frame id).1.buffered = [] := by
    unfold opened
    cases issuedSession frame <;> exact ⟨rfl, rfl⟩
  refine ⟨h.pinned.steady hsteady, fun other after hafter hn => ?_, fun other after hafter hb => ?_,
    fun written hmem other haudits => ?_⟩
  · rcases Heap.getElem?_append_iff.mp hafter with hold | ⟨-, rfl⟩
    · exact (h.negotiated other after hold hn).later hlater rfl
    · rw [hfresh.1] at hn
      cases hn
  · rcases Heap.getElem?_append_iff.mp hafter with hold | ⟨-, rfl⟩
    · exact (h.buffered other after hold hb).later hlater rfl
    · exact absurd hfresh.2 hb
  · obtain ⟨before, hbefore, haudited⟩ := h.written written hmem other haudits
    exact ⟨before, Heap.getElem?_append_iff.mpr (Or.inl hbefore), haudited.later hlater rfl⟩

-- The end of a call, which empties nothing into its frames.
theorem Audits.cancel (h : Audits config s) (hserves : Serves s) (call : Nat) :
    Audits config ((s.alter call fun found => { found with cancelled := true }).release call true) := by
  cases hcall : s.calls[call]? with
  | none =>
      rw [cancel_none hcall]
      exact h
  | some found =>
      by_cases htracked : s.tracked.get found.originalId = some call
      · rw [cancel_eq hcall htracked]
        obtain ⟨hlater, hsteady⟩ := leaveSession_steady hserves hcall htracked true
        exact h.quiet rfl (fun _ => rfl) (fun _ => rfl) (fun _ _ hb => Or.inl hb) hlater hsteady rfl
      · rw [cancel_untracked hcall htracked]
        exact h.quiet rfl (fun _ => rfl) (fun _ => rfl) (fun _ _ hb => Or.inl hb) (.refl _) (.refl _) rfl

theorem Move.audits (hmove : Move config s s') (hserves : Serves s) (h : Audits config s) : Audits config s' := by
  cases hmove with
  | aside haside =>
      obtain ⟨plain, hwritten, hplain⟩ := haside.written
      refine h.congr haside.calls (haside.sessions ▸ .refl _) (haside.sessions ▸ .refl _) hwritten
        fun written hmem other haudits => ?_
      have hquiet := hplain written hmem
      cases written with
      | refusal frame => cases haudits
      | passed frame => cases haudits
      | round _ _ _ _ => cases hquiet
      | message _ _ _ => cases hquiet
      | final _ _ _ _ => cases hquiet
  | opens frame id => exact h.opens hserves frame id
  | negotiates hcall hresult =>
      obtain ⟨hpinned, haudited⟩ := negotiate_pinned hserves h.pinned hcall hresult
      have hlater := negotiate_later hresult
      obtain ⟨sessions, rfl⟩ := negotiate_eq hresult
      have hnothing : s.written = s.written ++ [] := (List.append_nil _).symm
      refine h.update rfl (fun _ => rfl) hlater hpinned (fun before hbefore hn => ?_) (fun _ _ hb => Or.inl hb) hnothing
        (by simp)
      obtain rfl := Option.some_inj.mp (hcall.symm.trans hbefore)
      exact Or.inr ((haudited hn).later (.refl _) rfl)
  | notes event hcall hlost =>
      exact h.quiet rfl (fun _ => rfl) (fun _ => rfl) (fun _ _ hb => Or.inl hb) (.refl _) (.refl _) rfl
  | waits hcall hnegotiated hattempt hmodern hfinished hcancelled =>
      rw [waits_eq hcall hmodern hfinished hcancelled]
      refine h.quiet rfl (fun _ => rfl) (fun _ => rfl) (fun before hbefore _ => ?_) (.refl _) (.refl _) rfl
      obtain rfl := Option.some_inj.mp (hcall.symm.trans hbefore)
      exact Or.inr hnegotiated
  | buffers hcall hnegotiated hmodern hfinished hcancelled =>
      rw [buffers_eq hcall hmodern hfinished hcancelled]
      refine h.quiet rfl (fun _ => rfl) (fun _ => rfl) (fun before hbefore _ => ?_) (.refl _) (.refl _) rfl
      obtain rfl := Option.some_inj.mp (hcall.symm.trans hbefore)
      exact Or.inr hnegotiated
  | tells event frame hcall hnegotiated =>
      refine h.congr rfl (.refl _) (.refl _) rfl fun written hmem other haudits => ?_
      obtain rfl := List.mem_singleton.mp hmem
      exact ⟨_, haudits ▸ hcall, h.negotiated _ _ hcall hnegotiated⟩
  | asks event hcall hmodern =>
      have hnothing : s.written = s.written ++ [] := (List.append_nil _).symm
      exact h.congr rfl (.refl _) (.refl _) hnothing (by simp)
  | endsRound scheduled hcall hopen hround hbuffered hfresh htracked =>
      refine h.update rfl (fun _ => rfl) (.refl _) h.pinned (fun _ _ hn => Or.inl hn) (fun _ _ hb => absurd rfl hb) rfl
        fun written hmem other haudits => ?_
      obtain rfl := List.mem_singleton.mp hmem
      exact ⟨_, haudits ▸ hcall, h.buffered _ _ hcall hbuffered⟩
  | unschedules hcall hidle =>
      exact h.quiet rfl (fun _ => rfl) (fun _ => rfl) (fun _ _ hb => Or.inl hb) (.refl _) (.refl _) rfl
  | resumes id frame hopen =>
      obtain ⟨-, ⟨before, hcall, -⟩, -⟩ := openRound_eq_some.mp hopen
      obtain ⟨accepting, heq⟩ := resumes_eq hcall id frame
      rw [heq]
      exact h.quiet rfl (fun _ => rfl) (fun _ => rfl) (fun _ _ hb => Or.inl hb) (.refl _) (.refl _) rfl
  | finishes answer hcall hfinished =>
      refine h.quiet rfl (fun _ => rfl) (fun _ => rfl) (fun before _ hb => Or.inl fun hnone => hb ?_) (.refl _) (.refl _)
        rfl
      change before.buffered.filter _ = []
      rw [hnone, List.filter_nil]
  | concludes answer frame hcall hfinished hcarries hanswer hsame =>
      refine h.update rfl (fun _ => rfl) (.refl _) h.pinned (fun _ _ hn => Or.inl hn) (fun _ _ hb => absurd rfl hb) rfl
        fun written hmem other haudits => ?_
      obtain rfl := List.mem_singleton.mp hmem
      obtain ⟨rfl, hevents⟩ := haudits
      exact ⟨_, hcall, h.buffered _ _ hcall hevents⟩
  | suspends answer inbound hcall hfinished hanswer =>
      have hnothing : s.written = s.written ++ [] := (List.append_nil _).symm
      exact h.congr rfl (.refl _) (.refl _) hnothing (by simp)
  | releases final hcall htracked hfinished =>
      rw [release_eq hcall htracked]
      obtain ⟨hlater, hsteady⟩ := leaveSession_steady hserves hcall htracked final
      exact h.quiet rfl (fun _ => rfl) (fun _ => rfl) (fun _ _ hb => Or.inl hb) hlater hsteady rfl
  | cancels call => exact h.cancel hserves call
  | holds held hcall hheld =>
      exact h.quiet rfl (fun _ => rfl) (fun _ => rfl) (fun _ _ hb => Or.inl hb) (.refl _) (.refl _) rfl
  | settles hprogress =>
      have hnothing : s.written = s.written ++ [] := (List.append_nil _).symm
      exact h.congr rfl (.refl _) (.refl _) hnothing (by simp)
  | dropsAll hnone =>
      obtain ⟨-, hheap, hnumberings, -⟩ := dropAll_kept hserves.table
      have hnothing : s.written = s.written ++ [] := (List.append_nil _).symm
      refine h.congr rfl ?_ (fun session own hown => Or.inr ⟨own, hheap ▸ hown, rfl, rfl⟩) hnothing (by simp)
      refine ⟨fun session own hown => ⟨own, hheap ▸ hown, .refl own⟩, fun session own hown => Or.inl ?_,
        Nat.le_of_eq hnumberings.symm⟩
      exact ⟨own, hheap ▸ hown, .refl own⟩

theorem TransportRun.audits {actions : List TransportAction} (hrun : TransportRun config actions s) : Audits config s := by
  have hboth := hrun.keeps (I := fun s => Serves s ∧ Audits config s) ?_
    fun _ _ hsound hs hmove => ⟨hmove.serves hsound.wired hs.1, hmove.audits hs.1 hs.2⟩
  · exact hboth.2
  · refine ⟨(@TransportRun.start config).serves, ?_, ?_, ?_, ?_⟩
    · intro session own result hown
      cases hown
    · intro call found hcall
      cases hcall
    · intro call found hcall
      cases hcall
    · intro written hmem
      cases hmem

end

section

variable {config : TransportConfig} {s : Transport} {actions : List TransportAction} {call session : Nat} {written : Written}

-- An audit event goes out for no call but one under an audit session whose host declared a
-- version, a level and a countersigning that this seam's declaration meets: the rounds, the
-- messages and the final frames with outcomes all follow a negotiation, which is pinned to the
-- session.
theorem audited_after_negotiation (hrun : TransportRun config actions s) (hwritten : written ∈ s.written)
    (haudits : written.audits call) : ∃ found, s.calls[call]? = some found ∧ Audited config s.sessions found :=
  hrun.audits.written written hwritten call haudits

theorem audited_after_negotiation_round : ∃ (s : Transport) (found : ToolCall) (session : Nat),
    Reference.play Reference.seam Reference.auditedCall = some s ∧ s.calls[0]? = some found ∧
      found.session = some session := by
  have htest : (Reference.play Reference.seam Reference.auditedCall).any (fun s =>
      s.written.any fun written => match written with
        | .round call _ _ _ => call == 0
        | _ => false) = true := by decide +kernel
  obtain ⟨s, hplay, hrun, hstate⟩ := Reference.of_play htest
  obtain ⟨written, hmem, hround⟩ := List.any_eq_true.mp hstate
  have haudits : written.audits 0 := by
    cases written with
    | round call token events frame => exact (beq_iff_eq.mp hround)
    | final _ _ _ _ => cases hround
    | message _ _ _ => cases hround
    | refusal _ => cases hround
    | passed _ => cases hround
  obtain ⟨found, hcall, session, own, result, host, hsession, -⟩ := audited_after_negotiation hrun hmem haudits
  exact ⟨s, found, session, hplay, hcall, hsession⟩

end

end AuditableMcp.Mcp
