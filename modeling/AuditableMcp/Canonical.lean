import AuditableMcp.Runtime

namespace AuditableMcp

def MAX_SAFE_INTEGER : ℚ := 9007199254740991

def JsNum.isUnsafe : JsNum → Bool
  | .fin value => JsNum.isInteger (.fin value) && MAX_SAFE_INTEGER < |value|
  | _ => true

def hasUnsafeNumber : Json → Bool
  | .num n => n.isUnsafe
  | .arr elements => items elements
  | .obj entries => members entries
  | _ => false
where
  items : List Json → Bool
    | [] => false
    | item :: rest => hasUnsafeNumber item || items rest
  members : List (JsString × Json) → Bool
    | [] => false
    | (_, value) :: rest => hasUnsafeNumber value || members rest

-- A high surrogate no low one follows, or a low one no high one precedes.
def loneSurrogateAfter (previous : Option UInt16) : List UInt16 → Bool
  | [] => false
  | c :: rest =>
      (JsString.isHighSurrogate c && !(rest.head?.any JsString.isLowSurrogate)) ||
      (JsString.isLowSurrogate c && !(previous.any JsString.isHighSurrogate)) ||
      loneSurrogateAfter (some c) rest

def LONE_SURROGATE (s : JsString) : Bool := loneSurrogateAfter none s.units

def hasLoneSurrogate : Json → Bool
  | .str s => LONE_SURROGATE s
  | .arr elements => items elements
  | .obj entries => members entries
  | _ => false
where
  items : List Json → Bool
    | [] => false
    | item :: rest => hasLoneSurrogate item || items rest
  members : List (JsString × Json) → Bool
    | [] => false
    | (key, value) :: rest => LONE_SURROGATE key || hasLoneSurrogate value || members rest

-- Every JSON value has a JSON form, so the serializer's `undefined` does not arise.
def canonicalize (P : Primitives) (value : Json) : Except JsError JsString :=
  if hasUnsafeNumber value then
    .error (.canonicalizationError
      "a numeric value is not canonicalizable (non-finite or outside ±(2^53-1)) (§8.1)")
  else if hasLoneSurrogate value then
    .error (.canonicalizationError "a string carries a lone surrogate, which has no canonical form (§8.1)")
  else .ok (P.jcsCanonicalize value)

def sha256Hex (P : Primitives) (data : JsString) : JsString := bytesToHex (P.sha256 (encodeUtf8 data))

def hashCanonical (P : Primitives) (value : Json) : Except JsError JsString := do
  let canonical ← canonicalize P value
  return JsString.ofString "sha256:" ++ sha256Hex P canonical

-- The domain of `canonicalize` (§8.1).
def Canonicalizable (value : Json) : Prop := hasUnsafeNumber value = false ∧ hasLoneSurrogate value = false

instance (value : Json) : Decidable (Canonicalizable value) := inferInstanceAs (Decidable (_ ∧ _))

-- What RFC 8785 is for: one text for values equal up to the order of members, and
-- different texts for values that are not.
def JcsFaithful (P : Primitives) : Prop :=
  ∀ a b, Canonicalizable a → Canonicalizable b →
    (P.jcsCanonicalize a = P.jcsCanonicalize b ↔ a.canon = b.canon)

theorem canonicalize_of_canonicalizable (P : Primitives) {value : Json} (h : Canonicalizable value) :
    canonicalize P value = .ok (P.jcsCanonicalize value) := by
  simp [canonicalize, h.1, h.2]

theorem canonicalizable_of_ok {P : Primitives} {value : Json} {text : JsString}
    (h : canonicalize P value = .ok text) : Canonicalizable value ∧ P.jcsCanonicalize value = text := by
  unfold canonicalize at h
  split at h
  · cases h
  · rename_i hn
    split at h
    · cases h
    · rename_i hs
      exact ⟨⟨by simpa using hn, by simpa using hs⟩, by simpa using h⟩

theorem canonicalize_isOk (P : Primitives) (value : Json) :
    (∃ text, canonicalize P value = .ok text) ↔ Canonicalizable value :=
  ⟨fun ⟨_, h⟩ => (canonicalizable_of_ok h).1, fun h => ⟨_, canonicalize_of_canonicalizable P h⟩⟩

theorem canonicalize_eq_iff {P : Primitives} (hjcs : JcsFaithful P) {a b : Json}
    (ha : Canonicalizable a) (hb : Canonicalizable b) :
    canonicalize P a = canonicalize P b ↔ a.canon = b.canon := by
  rw [canonicalize_of_canonicalizable P ha, canonicalize_of_canonicalizable P hb]
  simpa using hjcs a b ha hb

theorem loneSurrogateAfter_ascii (units : List UInt16) (previous : Option UInt16)
    (h : ∀ c ∈ units, c.toNat < 0x80) : loneSurrogateAfter previous units = false := by
  induction units generalizing previous with
  | nil => rfl
  | cons c rest ih =>
      have hc : c < 0xD800 := by
        have := h c (by simp)
        exact UInt16.lt_iff_toNat_lt.mpr (by simp; omega)
      have hl : c < 0xDC00 := by
        have := h c (by simp)
        exact UInt16.lt_iff_toNat_lt.mpr (by simp; omega)
      simp only [loneSurrogateAfter, ih _ (fun d hd => h d (by simp [hd])), Bool.or_false,
        Bool.or_eq_false_iff, Bool.and_eq_false_iff]
      exact ⟨Or.inl (by simp [JsString.isHighSurrogate, UInt16.not_le.mpr hc]),
        Or.inl (by simp [JsString.isLowSurrogate, UInt16.not_le.mpr hl])⟩

theorem LONE_SURROGATE_ascii (s : JsString) (h : ∀ c ∈ s.units, c.toNat < 0x80) :
    LONE_SURROGATE s = false := loneSurrogateAfter_ascii s.units none h

-- A digest is hex, so it can be hashed again.
theorem sha256Hex_wellFormed (P : Primitives) (data : JsString) : LONE_SURROGATE (sha256Hex P data) = false :=
  LONE_SURROGATE_ascii _ (fun c hc => bytesToHex_ascii _ c hc)

end AuditableMcp
