import AuditableMcp.Canonical
import Mathlib.Algebra.Order.Ring.Rat
import Mathlib.Data.Nat.Cast.Order.Ring

namespace AuditableMcp

def GENESIS_HASH : JsString := ⟨List.replicate 64 0x30⟩

-- An object literal whose members may be `undefined`: the serializer skips those.
def objectOf (members : List (JsString × Option Json)) : Json :=
  .obj (members.filterMap fun entry => entry.2.map fun value => (entry.1, value))

def recordPreimage (event seq hostTs previousHash : Option Json) : Json :=
  objectOf [("event", event), ("host_ts", hostTs), ("previous_hash", previousHash), ("seq", seq)]

def computeRecordHash (P : Primitives) (event seq hostTs previousHash : Option Json) :
    Except JsError JsString := do
  let canonical ← canonicalize P (recordPreimage event seq hostTs previousHash)
  return sha256Hex P canonical

def countersignaturePayload (P : Primitives) (seq hostTs logId previousHash recordHash : Option Json) :
    Except JsError (List UInt8) := do
  let canonical ← canonicalize P (objectOf [("host_ts", hostTs), ("log_id", logId),
    ("previous_hash", previousHash), ("record_hash", recordHash), ("seq", seq)])
  return encodeUtf8 canonical

-- An object literal of canonicalizable members is canonicalizable.
theorem objectOf_canonicalizable {members : List (JsString × Option Json)}
    (h : ∀ entry ∈ members, LONE_SURROGATE entry.1 = false ∧ ∀ value, entry.2 = some value → Canonicalizable value) :
    Canonicalizable (objectOf members) := by
  have hall : hasUnsafeNumber.members (members.filterMap fun entry => entry.2.map fun value => (entry.1, value)) = false ∧
      hasLoneSurrogate.members (members.filterMap fun entry => entry.2.map fun value => (entry.1, value)) = false := by
    induction members with
    | nil => exact ⟨rfl, rfl⟩
    | cons entry rest ih =>
        obtain ⟨hnumbers, hlone⟩ := ih fun other ho => h other (List.mem_cons_of_mem entry ho)
        obtain ⟨hname, hvalue⟩ := h entry (List.mem_cons_self ..)
        cases hentry : entry.2 with
        | none => simpa [List.filterMap_cons, hentry] using ⟨hnumbers, hlone⟩
        | some value =>
            obtain ⟨hsafe, hwhole⟩ := hvalue value hentry
            simp [hentry, hasUnsafeNumber.members, hasLoneSurrogate.members, hsafe, hwhole, hname, hnumbers, hlone]
  exact hall

theorem canonicalizable_str {text : JsString} (h : LONE_SURROGATE text = false) : Canonicalizable (.str text) :=
  ⟨rfl, h⟩

theorem canonicalizable_count {n : Nat} (h : (n : ℚ) ≤ MAX_SAFE_INTEGER) : Canonicalizable (.num (.ofNat n)) := by
  have hpos : (0 : ℚ) ≤ n := Nat.cast_nonneg n
  refine ⟨?_, rfl⟩
  simp [hasUnsafeNumber, JsNum.ofNat, JsNum.isUnsafe, abs_of_nonneg hpos, h]

-- The other way round: a member that is not canonicalizable shows in the literal.
theorem canonicalizable_of_objectOf {members : List (JsString × Option Json)} (h : Canonicalizable (objectOf members))
    {name : JsString} {value : Json} (hmem : (name, some value) ∈ members) : Canonicalizable value := by
  have hall : ∀ entries : List (JsString × Json), hasUnsafeNumber.members entries = false →
      hasLoneSurrogate.members entries = false → ∀ entry ∈ entries, Canonicalizable entry.2 := by
    intro entries hnumbers hlone
    induction entries with
    | nil => simp
    | cons first rest ih =>
        obtain ⟨key, value⟩ := first
        simp only [hasUnsafeNumber.members, hasLoneSurrogate.members, Bool.or_eq_false_iff] at hnumbers hlone
        simp only [List.forall_mem_cons]
        exact ⟨⟨hnumbers.1, hlone.1.2⟩, ih hnumbers.2 hlone.2⟩
  exact hall _ h.1 h.2 (name, value) (List.mem_filterMap.mpr ⟨_, hmem, rfl⟩)

end AuditableMcp
