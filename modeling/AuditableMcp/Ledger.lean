import AuditableMcp.Hashing
import AuditableMcp.Library.Fold
import AuditableMcp.Library.HashChain

namespace AuditableMcp

-- A timestamp stands as the value its source handed over, so that a ledger can be
-- folded over whatever a stored record carries.
structure SealedRecord where
  event : Json
  seq : Nat
  host_ts : Option Json
  previous_hash : JsString
  record_hash : JsString
  host_signature : Option JsString
  host_key_id : Option JsString
  log_id : Option JsString

structure Ledger where
  records : List SealedRecord
  count : Nat
  tailHash : JsString

namespace Ledger

def new : Ledger := ⟨[], 0, GENESIS_HASH⟩

def recordOf (ledger : Ledger) (event : Json) (hostTs : Option Json) (recordHash : JsString) : SealedRecord where
  event
  seq := ledger.count
  host_ts := hostTs
  previous_hash := ledger.tailHash
  record_hash := recordHash
  host_signature := none
  host_key_id := none
  log_id := none

-- The source's `seal`, a keyword here.
def sealRecord (P : Primitives) (ledger : Ledger) (event : Json) (hostTs : Option Json) :
    Except JsError SealedRecord := do
  let recordHash ← computeRecordHash P event (some (.num (.ofNat ledger.count))) hostTs
    (some (.str ledger.tailHash))
  return ledger.recordOf event hostTs recordHash

def commit (ledger : Ledger) (record : SealedRecord) : Ledger :=
  ⟨ledger.records ++ [record], ledger.count + 1, record.record_hash⟩

def append (P : Primitives) (ledger : Ledger) (event : Json) (hostTs : Option Json) :
    Except JsError Ledger := do
  let next ← ledger.sealRecord P event hostTs
  return ledger.commit next

def resumeFrom : Option SealedRecord → Ledger
  | some tail => ⟨[], tail.seq + 1, tail.record_hash⟩
  | none => ⟨[], 0, GENESIS_HASH⟩

def digest (ledger : Ledger) : JsString := ledger.tailHash

-- `append` folded over events and timestamps.
def appendAll (P : Primitives) : Ledger → List (Json × Option Json) → Except JsError Ledger
  | ledger, [] => .ok ledger
  | ledger, (event, hostTs) :: rest => do
      let next ← ledger.append P event hostTs
      appendAll P next rest

end Ledger

-- What the record hash is as the hash of a chain.
def linkHash (P : Primitives) (n : Nat) (prev : JsString) (body : Json × Option Json) : Option JsString :=
  (computeRecordHash P body.1 (some (.num (.ofNat n))) body.2 (some (.str prev))).toOption

def SealedRecord.link (record : SealedRecord) : HashChain.Link (Json × Option Json) JsString :=
  ⟨(record.event, record.host_ts), record.previous_hash, record.record_hash⟩

def tailHashOf (records : List SealedRecord) : JsString :=
  HashChain.tip GENESIS_HASH (records.map SealedRecord.link)

-- The abstract ledger: positions count from 0 and every record links to the one before it.
structure IsChain (P : Primitives) (records : List SealedRecord) : Prop where
  seq : ∀ (i : Nat) (record : SealedRecord), records[i]? = some record → record.seq = i
  linked : HashChain.Linked (linkHash P) 0 GENESIS_HASH (records.map SealedRecord.link)

@[simp] theorem tailHashOf_nil : tailHashOf [] = GENESIS_HASH := rfl

@[simp] theorem tailHashOf_append_singleton (records : List SealedRecord) (record : SealedRecord) :
    tailHashOf (records ++ [record]) = record.record_hash := by
  simp [tailHashOf, SealedRecord.link]

theorem isChain_nil (P : Primitives) : IsChain P [] := ⟨by simp, trivial⟩

theorem isChain_append_singleton (P : Primitives) (records : List SealedRecord) (record : SealedRecord) :
    IsChain P (records ++ [record]) ↔
      IsChain P records ∧ record.seq = records.length ∧ record.previous_hash = tailHashOf records ∧
        linkHash P records.length (tailHashOf records) (record.event, record.host_ts) =
          some record.record_hash := by
  have hlinked := HashChain.linked_append_singleton (linkHash P) 0 GENESIS_HASH
    (records.map SealedRecord.link) record.link
  simp only [Nat.zero_add, List.length_map] at hlinked
  constructor
  · rintro ⟨hseq, hl⟩
    rw [List.map_append, List.map_singleton, hlinked] at hl
    refine ⟨⟨?_, hl.1⟩, hseq _ _ (by simp), hl.2.1, hl.2.2⟩
    intro i r hi
    obtain ⟨hlt, -⟩ := List.getElem?_eq_some_iff.mp hi
    exact hseq i r (by rw [List.getElem?_append_left hlt, hi])
  · rintro ⟨⟨hseq, hl⟩, hs, hp, hh⟩
    refine ⟨?_, by rw [List.map_append, List.map_singleton, hlinked]; exact ⟨hl, hp, hh⟩⟩
    intro i r hi
    rcases Nat.lt_or_ge i records.length with hlt | hge
    · exact hseq i r (by rwa [List.getElem?_append_left hlt] at hi)
    · rw [List.getElem?_append_right hge] at hi
      have hz : i - records.length = 0 := by
        by_contra hne
        rw [List.getElem?_eq_none (by simp; omega)] at hi
        cases hi
      rw [hz] at hi
      have hr : record = r := by simpa using hi
      rw [← hr, hs]
      omega

namespace Ledger

theorem sealRecord_ok {P : Primitives} {ledger : Ledger} {event : Json} {hostTs : Option Json}
    {record : SealedRecord} (h : ledger.sealRecord P event hostTs = .ok record) :
    linkHash P ledger.count ledger.tailHash (event, hostTs) = some record.record_hash ∧
      record = ledger.recordOf event hostTs record.record_hash := by
  unfold sealRecord at h
  cases hh : computeRecordHash P event (some (.num (.ofNat ledger.count))) hostTs
      (some (.str ledger.tailHash)) with
  | error e => simp [hh, bind, Except.bind] at h
  | ok value =>
      simp only [hh, bind, Except.bind, pure, Except.pure, Except.ok.injEq] at h
      subst h
      exact ⟨by simp [linkHash, hh, Except.toOption, recordOf], rfl⟩

theorem appendAll_append_singleton {P : Primitives} (ledger : Ledger) (entries : List (Json × Option Json))
    (entry : Json × Option Json) : ledger.appendAll P (entries ++ [entry]) =
      (do let next ← ledger.appendAll P entries
          next.append P entry.1 entry.2) := by
  induction entries generalizing ledger with
  | nil =>
      obtain ⟨event, hostTs⟩ := entry
      simp only [List.nil_append, appendAll, bind, Except.bind]
      cases ledger.append P event hostTs <;> rfl
  | cons head rest ih =>
      obtain ⟨event, hostTs⟩ := head
      simp only [List.cons_append, appendAll, bind, Except.bind]
      cases ledger.append P event hostTs with
      | error e => rfl
      | ok next => exact ih next

theorem append_ok {P : Primitives} {ledger next : Ledger} {event : Json} {hostTs : Option Json} :
    ledger.append P event hostTs = .ok next ↔ ∃ recordHash,
      computeRecordHash P (some event) (some (.num (.ofNat ledger.count))) hostTs (some (.str ledger.tailHash)) =
        .ok recordHash ∧
      next = ledger.commit (ledger.recordOf event hostTs recordHash) := by
  unfold append sealRecord
  cases computeRecordHash P (some event) (some (.num (.ofNat ledger.count))) hostTs (some (.str ledger.tailHash)) with
  | error e => simp [bind, Except.bind]
  | ok recordHash => simp [bind, Except.bind, pure, Except.pure, eq_comm]

end Ledger

theorem linkHash_eq_some {P : Primitives} {n : Nat} {prev : JsString} {body : Json × Option Json}
    {recordHash : JsString} : linkHash P n prev body = some recordHash ↔
      computeRecordHash P (some body.1) (some (.num (.ofNat n))) body.2 (some (.str prev)) = .ok recordHash := by
  unfold linkHash
  cases computeRecordHash P (some body.1) (some (.num (.ofNat n))) body.2 (some (.str prev)) <;>
    simp [Except.toOption]

-- A ledger's own records are a chain, which its tail ends.
theorem appendAll_isChain {P : Primitives} (entries : List (Json × Option Json)) {ledger : Ledger}
    (h : Ledger.new.appendAll P entries = .ok ledger) :
    IsChain P ledger.records ∧ ledger.count = ledger.records.length ∧ ledger.tailHash = tailHashOf ledger.records ∧
      ledger.records.map (fun record => (record.event, record.host_ts)) = entries := by
  induction entries using List.reverseRecOn generalizing ledger with
  | nil =>
      obtain rfl := Except.ok.inj h
      exact ⟨isChain_nil P, rfl, rfl, rfl⟩
  | append_singleton init entry ih =>
      rw [Ledger.appendAll_append_singleton] at h
      obtain ⟨before, hbefore, h⟩ := bind_ok h
      obtain ⟨hchain, hcount, htail, hentries⟩ := ih hbefore
      obtain ⟨recordHash, hhash, rfl⟩ := Ledger.append_ok.mp h
      refine ⟨?_, by simp [Ledger.commit, hcount], by simp [Ledger.commit, Ledger.recordOf],
        by simp [Ledger.commit, Ledger.recordOf, hentries]⟩
      refine (isChain_append_singleton P before.records _).mpr ⟨hchain, hcount, htail, ?_⟩
      rw [← hcount, ← htail]
      exact linkHash_eq_some.mpr hhash

end AuditableMcp
