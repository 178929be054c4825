import Mathlib.Data.List.Basic

-- Bytes regrouped as numbers of six bits, four for every three bytes (RFC 4648 §4).
namespace Base64

def encode : List UInt8 → List Nat
  | [] => []
  | [a] => [a.toNat / 4, a.toNat % 4 * 16]
  | [a, b] => [a.toNat / 4, a.toNat % 4 * 16 + b.toNat / 16, b.toNat % 16 * 4]
  | a :: b :: c :: rest =>
      a.toNat / 4 :: (a.toNat % 4 * 16 + b.toNat / 16) :: (b.toNat % 16 * 4 + c.toNat / 64) :: c.toNat % 64 ::
        encode rest

-- Bits that do not fill a byte are dropped.
def decode : List Nat → List UInt8
  | w :: x :: y :: z :: rest =>
      UInt8.ofNat (w * 4 + x / 16) :: UInt8.ofNat (x % 16 * 16 + y / 4) :: UInt8.ofNat (y % 4 * 64 + z) :: decode rest
  | [w, x, y] => [UInt8.ofNat (w * 4 + x / 16), UInt8.ofNat (x % 16 * 16 + y / 4)]
  | [w, x] => [UInt8.ofNat (w * 4 + x / 16)]
  | _ => []

theorem ofNat_eq (a : UInt8) {n : Nat} (h : n = a.toNat) : UInt8.ofNat n = a := by
  rw [h, UInt8.ofNat_toNat]

theorem decode_encode (bytes : List UInt8) : decode (encode bytes) = bytes := by
  induction bytes using encode.induct with
  | case1 => rfl
  | case2 a =>
      simp only [encode, decode]
      rw [ofNat_eq a (by omega)]
  | case3 a b =>
      have := b.toNat_lt
      simp only [encode, decode]
      rw [ofNat_eq a (by omega), ofNat_eq b (by omega)]
  | case4 a b c rest ih =>
      have := b.toNat_lt
      have := c.toNat_lt
      simp only [encode, decode, ih]
      rw [ofNat_eq a (by omega), ofNat_eq b (by omega), ofNat_eq c (by omega)]

theorem encode_lt (bytes : List UInt8) : ∀ n ∈ encode bytes, n < 64 := by
  induction bytes using encode.induct with
  | case1 => simp [encode]
  | case2 a =>
      have := a.toNat_lt
      simp only [encode, List.mem_cons, List.not_mem_nil, or_false, forall_eq_or_imp, forall_eq]
      omega
  | case3 a b =>
      have := a.toNat_lt
      have := b.toNat_lt
      simp only [encode, List.mem_cons, List.not_mem_nil, or_false, forall_eq_or_imp, forall_eq]
      omega
  | case4 a b c rest ih =>
      have := a.toNat_lt
      have := b.toNat_lt
      have := c.toNat_lt
      simp only [encode, List.mem_cons, forall_eq_or_imp]
      exact ⟨by omega, by omega, by omega, by omega, ih⟩

theorem length_encode (bytes : List UInt8) : (encode bytes).length = (bytes.length * 4 + 2) / 3 := by
  induction bytes using encode.induct with
  | case1 => rfl
  | case2 a => simp [encode]
  | case3 a b => simp [encode]
  | case4 a b c rest ih =>
      simp only [encode, List.length_cons, ih]
      omega

-- No encoding is one over a multiple of four.
theorem length_encode_mod (bytes : List UInt8) : (encode bytes).length % 4 ≠ 1 := by
  rw [length_encode]
  omega

theorem toNat_ofNat {n : Nat} (h : n < 256) : (UInt8.ofNat n).toNat = n := by
  rw [UInt8.toNat_ofNat']
  omega

-- Whole groups of four lose nothing.
theorem encode_decode (values : List Nat) (hlt : ∀ n ∈ values, n < 64) (hlength : values.length % 4 = 0) :
    encode (decode values) = values := by
  induction values using decode.induct with
  | case1 w x y z rest ih =>
      simp only [List.mem_cons, forall_eq_or_imp] at hlt
      obtain ⟨hw, hx, hy, hz, hrest⟩ := hlt
      simp only [List.length_cons] at hlength
      simp only [decode, encode]
      rw [ih hrest (by omega), toNat_ofNat (by omega), toNat_ofNat (by omega), toNat_ofNat (by omega)]
      congr 1
      · omega
      · congr 1
        · omega
        · congr 1
          · omega
          · congr 1
            omega
  | case2 w x y => simp at hlength
  | case3 w x => simp at hlength
  | case4 values h₁ h₂ h₃ =>
      match values, h₁, h₂, h₃, hlength with
      | [], _, _, _, _ => rfl
      | [w], _, _, _, hl => simp at hl
      | [w, x], _, _, h, _ => exact absurd rfl (h w x)
      | [w, x, y], _, h, _, _ => exact absurd rfl (h w x y)
      | w :: x :: y :: z :: rest, h, _, _, _ => exact absurd rfl (h w x y z rest)

-- The bits of the last number that fill no byte are zero.
theorem encode_whole (bytes : List UInt8) {n : Nat} (h : (encode bytes).getLast? = some n) :
    ((encode bytes).length % 4 = 2 → n % 16 = 0) ∧ ((encode bytes).length % 4 = 3 → n % 4 = 0) := by
  induction bytes using encode.induct with
  | case1 => cases h
  | case2 a =>
      obtain rfl : a.toNat % 4 * 16 = n := by simpa [encode] using h
      simp [encode]
  | case3 a b =>
      obtain rfl : b.toNat % 16 * 4 = n := by simpa [encode] using h
      simp [encode]
  | case4 a b c rest ih =>
      simp only [encode, List.length_cons] at h ⊢
      cases hrest : encode rest with
      | nil => simp
      | cons first others =>
          rw [hrest] at h ih
          have hlast := ih (by simpa [List.getLast?_cons_cons] using h)
          rw [List.length_cons] at hlast ⊢
          exact ⟨fun hlength => hlast.1 (by omega), fun hlength => hlast.2 (by omega)⟩

end Base64
