import AuditableMcp.Hashing
import AuditableMcp.Reference.Serializer
import AuditableMcp.Reference.Sha256

-- Primitives that are what the code relies on.
namespace AuditableMcp.Reference

def primitives : Primitives where
  jcsCanonicalize := jcs
  sha256 := Sha256.sha256
  numberToString := numberText

theorem primitives_faithful : JcsFaithful primitives := fun a b _ _ => jcs_eq_iff a b

-- Primitives that are the real ones on one value and nowhere collide: any other value is
-- written in ASCII escapes, and any other input is longer than a digest.
section

variable (known : Json)

def escapedJcs (value : Json) : JsString :=
  if jcs value = jcs known then jcs value else ⟨(jcs value).units.flatMap hexEscape⟩

def wideSha256 (input : List UInt8) : List UInt8 :=
  if input = encodeUtf8 (jcs known) then Sha256.sha256 input else List.replicate 33 0 ++ input

def distinctOn : Primitives where
  jcsCanonicalize := escapedJcs known
  sha256 := wideSha256 known
  numberToString := numberText

variable {known}

theorem hexEscapes_injective {first second : List UInt16}
    (h : first.flatMap hexEscape = second.flatMap hexEscape) : first = second := by
  have hread (c : UInt16) (rest : List UInt16) :
      unescape ((c :: rest).flatMap hexEscape) = some (c, rest.flatMap hexEscape) := by
    rw [List.flatMap_cons, unescape_hexEscape]
  induction first generalizing second with
  | nil =>
      cases second with
      | nil => rfl
      | cons d others =>
          have hd := hread d others
          rw [← h] at hd
          cases hd
  | cons c rest ih =>
      have hc := hread c rest
      cases second with
      | nil =>
          rw [h] at hc
          cases hc
      | cons d others =>
          rw [h, hread] at hc
          obtain ⟨rfl, hrest⟩ := Prod.mk.inj (Option.some.inj hc)
          rw [ih hrest.symm]

theorem jcs_ne_escaped {members : List (JsString × Json)} (units : List UInt16) :
    jcs (.obj members) ≠ ⟨units.flatMap hexEscape⟩ := by
  intro h
  have hunits := congrArg JsString.units h
  cases units with
  | nil => simp [jcs, Json.canon, stringify] at hunits
  | cons c rest => simp [jcs, Json.canon, stringify, hexEscape] at hunits

theorem distinctOn_faithful (members : List (JsString × Json)) : JcsFaithful (distinctOn (.obj members)) := by
  intro a b _ _
  rw [← jcs_eq_iff]
  show escapedJcs (.obj members) a = escapedJcs (.obj members) b ↔ jcs a = jcs b
  unfold escapedJcs
  split <;> split <;> rename_i ha hb
  · rfl
  · rw [ha]
    exact ⟨fun h => absurd h (jcs_ne_escaped _), fun h => absurd h.symm hb⟩
  · rw [hb]
    exact ⟨fun h => absurd h.symm (jcs_ne_escaped _), fun h => absurd h ha⟩
  · exact ⟨fun h => congrArg JsString.mk (hexEscapes_injective (congrArg JsString.units h)), fun h => by rw [h]⟩

-- Where the known value's text is ASCII, so is every text.
theorem escapedJcs_ascii (hknown : ∀ c ∈ (jcs known).units, c.toNat < 0x80) (value : Json) :
    ∀ c ∈ (escapedJcs known value).units, c.toNat < 0x80 := by
  intro c hc
  unfold escapedJcs at hc
  split at hc
  · rename_i h
    exact hknown c (h ▸ hc)
  · obtain ⟨unit, -, hunit⟩ := List.mem_flatMap.mp hc
    have hu := unit.toNat_lt
    simp only [hexEscape, List.mem_cons, List.not_mem_nil, or_false] at hunit
    rcases hunit with rfl | rfl | rfl | rfl | rfl | rfl
    · decide
    · decide
    · exact hexDigit_lt _ (by omega)
    · exact hexDigit_lt _ (by omega)
    · exact hexDigit_lt _ (by omega)
    · exact hexDigit_lt _ (by omega)

theorem decodeUnits_ascii (units : List UInt16) (h : ∀ c ∈ units, c.toNat < 0x80) :
    (decodeUnits units).flatMap String.utf8EncodeChar = units.map fun c => UInt8.ofNat c.toNat := by
  have hunit (c : UInt16) (hc : c.toNat < 0x80) : JsString.isHighSurrogate c = false ∧
      String.utf8EncodeChar (decodeUnit c) = [UInt8.ofNat c.toNat] := by
    have hhigh : ¬(0xD800 : UInt16) ≤ c := fun he => by have := UInt16.le_iff_toNat_le.mp he; simp at this; omega
    have hlow : ¬(0xDC00 : UInt16) ≤ c := fun he => by have := UInt16.le_iff_toNat_le.mp he; simp at this; omega
    refine ⟨by simp [JsString.isHighSurrogate, hhigh], ?_⟩
    have hvals : ∀ n < 0x80, (Char.ofNat n).val.toNat = n := by decide
    have hval := hvals c.toNat hc
    simp only [decodeUnit, JsString.isHighSurrogate, JsString.isLowSurrogate, hhigh, hlow, decide_false,
      Bool.false_and, Bool.or_self, Bool.false_eq_true, if_false, String.utf8EncodeChar, hval]
    rw [if_pos (by omega)]
  induction units with
  | nil => rfl
  | cons c rest ih =>
      have hc := hunit c (h c (by simp))
      have hrest := ih fun d hd => h d (by simp [hd])
      cases rest with
      | nil => simp [decodeUnits, hc.2]
      | cons d others =>
          rw [decodeUnits, hc.1]
          simp only [Bool.false_and, Bool.false_eq_true, if_false, List.flatMap_cons, hc.2, hrest, List.map_cons]
          rfl

theorem encodeUtf8_injective {first second : JsString} (hfirst : ∀ c ∈ first.units, c.toNat < 0x80)
    (hsecond : ∀ c ∈ second.units, c.toNat < 0x80) (h : encodeUtf8 first = encodeUtf8 second) : first = second := by
  have hback (units : List UInt16) (hascii : ∀ c ∈ units, c.toNat < 0x80) :
      (units.map fun c => UInt8.ofNat c.toNat).map (fun byte => byte.toNat.toUInt16) = units := by
    rw [List.map_map]
    refine (List.map_congr_left fun c hc => ?_).trans (List.map_id _)
    have := hascii c hc
    have hmod : c.toNat % 256 = c.toNat := Nat.mod_eq_of_lt (by omega)
    simp [Function.comp, hmod]
  unfold encodeUtf8 at h
  rw [decodeUnits_ascii _ hfirst, decodeUnits_ascii _ hsecond] at h
  have hunits := congrArg (List.map fun byte : UInt8 => byte.toNat.toUInt16) h
  rw [hback _ hfirst, hback _ hsecond] at hunits
  exact congrArg JsString.mk hunits

theorem bytesToHex_injective {first second : List UInt8} (h : bytesToHex first = bytesToHex second) :
    first = second := by
  have hunits := congrArg JsString.units h
  clear h
  simp only [bytesToHex] at hunits
  induction first generalizing second with
  | nil => cases second with
      | nil => rfl
      | cons b others => simp at hunits
  | cons a rest ih =>
      cases second with
      | nil => simp at hunits
      | cons b others =>
          simp only [List.flatMap_cons, List.cons_append, List.nil_append, List.cons.injEq] at hunits
          obtain ⟨hhigh, hlow, hrest⟩ := hunits
          have ha := a.toNat_lt
          have hb := b.toNat_lt
          have hhighs := congrArg hexValue hhigh
          have hlows := congrArg hexValue hlow
          rw [hexValue_hexDigit _ (by omega), hexValue_hexDigit _ (by omega)] at hhighs hlows
          have hbyte : a = b := UInt8.toNat_inj.mp (by omega)
          rw [hbyte, ih hrest]

theorem wideSha256_injective {first second : List UInt8} (h : wideSha256 known first = wideSha256 known second) :
    first = second := by
  have hwide (input : List UInt8) : 32 < (List.replicate 33 (0 : UInt8) ++ input).length := by
    rw [List.length_append, List.length_replicate]
    omega
  unfold wideSha256 at h
  split at h <;> split at h <;> rename_i hf hs
  · rw [hf, hs]
  · have := hwide second
    rw [← h, Sha256.length_sha256] at this
    omega
  · have := hwide first
    rw [h, Sha256.length_sha256] at this
    omega
  · exact List.append_cancel_left h

end

end AuditableMcp.Reference
