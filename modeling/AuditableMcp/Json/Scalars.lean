import AuditableMcp.Canonical

-- Texts that are sequences of Unicode scalar values, and the values made of them.
namespace AuditableMcp

namespace JsString

def isSurrogate (c : UInt16) : Bool := isHighSurrogate c || isLowSurrogate c

-- Every high surrogate is followed by a low one, and no other low one occurs.
def paired : List UInt16 → Bool
  | [] => true
  | [c] => !isSurrogate c
  | c :: d :: rest =>
      if isHighSurrogate c then isLowSurrogate d && paired rest else !isLowSurrogate c && paired (d :: rest)

theorem isHighSurrogate_iff (c : UInt16) : isHighSurrogate c = true ↔ 0xD800 ≤ c.toNat ∧ c.toNat ≤ 0xDBFF := by
  simp [isHighSurrogate, UInt16.le_iff_toNat_le]

theorem isLowSurrogate_iff (c : UInt16) : isLowSurrogate c = true ↔ 0xDC00 ≤ c.toNat ∧ c.toNat ≤ 0xDFFF := by
  simp [isLowSurrogate, UInt16.le_iff_toNat_le]

theorem not_low_of_high {c : UInt16} (h : isHighSurrogate c = true) : isLowSurrogate c = false := by
  have hhigh := (isHighSurrogate_iff c).mp h
  by_contra hne
  have hlow := (isLowSurrogate_iff c).mp (by simpa using hne)
  omega

theorem not_high_of_low {c : UInt16} (h : isLowSurrogate c = true) : isHighSurrogate c = false := by
  by_contra hne
  rw [not_low_of_high (by simpa using hne)] at h
  cases h

-- The scan for a lone surrogate looks for a break of the pairing, where it does not
-- start in the middle of a pair.
theorem loneSurrogateAfter_iff (units : List UInt16) {previous : Option UInt16}
    (hprevious : previous.any isHighSurrogate = false) : loneSurrogateAfter previous units = false ↔ paired units = true := by
  induction units using paired.induct generalizing previous with
  | case1 => simp [loneSurrogateAfter, paired]
  | case2 c => simp [loneSurrogateAfter, paired, isSurrogate, hprevious]
  | case3 c d rest hhigh ih =>
      have hlow := not_low_of_high hhigh
      simp only [loneSurrogateAfter, paired, hhigh, hlow, if_true, List.head?_cons, Option.any_some, Bool.true_and,
        Bool.false_and, Bool.or_false, Bool.or_eq_false_iff, Bool.and_eq_true, Bool.not_true, Bool.and_false,
        Bool.not_eq_false']
      refine and_congr_right fun hd => ?_
      have hdhigh := not_high_of_low hd
      simp only [hdhigh, Bool.false_and, true_and]
      exact ih (by simpa using hdhigh)
  | case4 c d rest hhigh ih =>
      have hhigh : isHighSurrogate c = false := by simpa using hhigh
      have hrest := ih (show (some c).any isHighSurrogate = false by simpa using hhigh)
      rw [loneSurrogateAfter, paired, if_neg (by simp [hhigh]), Bool.or_eq_false_iff, hrest]
      simp [hhigh, hprevious]

-- The code units of a scalar value: one that is no surrogate, or a pair.
theorem encodeChar_basic {c : Char} (h : c.toNat < 0x10000) :
    ∃ unit, encodeChar c = [unit] ∧ isHighSurrogate unit = false ∧ isLowSurrogate unit = false := by
  have hval : c.val < 0x10000 := by
    rw [UInt32.lt_iff_toNat_lt]
    exact h
  have hunit : c.val.toUInt16.toNat = c.toNat := by
    rw [UInt32.toNat_toUInt16]
    exact Nat.mod_eq_of_lt h
  have hvalid : c.toNat < 0xD800 ∨ 0xDFFF < c.toNat ∧ c.toNat < 0x110000 := c.valid
  refine ⟨c.val.toUInt16, if_pos hval, ?_, ?_⟩
  · by_contra hne
    have hhigh := (isHighSurrogate_iff _).mp (by simpa using hne)
    omega
  · by_contra hne
    have hlow := (isLowSurrogate_iff _).mp (by simpa using hne)
    omega

theorem encodeChar_pair {c : Char} (h : ¬c.toNat < 0x10000) :
    ∃ high low, encodeChar c = [high, low] ∧ isHighSurrogate high = true ∧ isLowSurrogate low = true ∧
      high.toNat = 0xD800 + (c.toNat - 0x10000) / 0x400 ∧ low.toNat = 0xDC00 + (c.toNat - 0x10000) % 0x400 := by
  have hvalid : c.toNat < 0xD800 ∨ 0xDFFF < c.toNat ∧ c.toNat < 0x110000 := c.valid
  have hval : ¬c.val < 0x10000 := by
    rw [UInt32.lt_iff_toNat_lt]
    exact h
  have hle : (0x10000 : UInt32) ≤ c.val := by
    rw [UInt32.le_iff_toNat_le]
    exact Nat.le_of_not_lt h
  have hsub : (c.val - 0x10000).toNat = c.toNat - 0x10000 := UInt32.toNat_sub_of_le _ _ hle
  have hhigh : (0xD800 + (c.val - 0x10000) / 0x400).toUInt16.toNat = 0xD800 + (c.toNat - 0x10000) / 0x400 := by
    rw [UInt32.toNat_toUInt16, UInt32.toNat_add, UInt32.toNat_div, hsub]
    simp
    omega
  have hlow : (0xDC00 + (c.val - 0x10000) % 0x400).toUInt16.toNat = 0xDC00 + (c.toNat - 0x10000) % 0x400 := by
    rw [UInt32.toNat_toUInt16, UInt32.toNat_add, UInt32.toNat_mod, hsub]
    simp
    omega
  refine ⟨_, _, if_neg hval, (isHighSurrogate_iff _).mpr ?_, (isLowSurrogate_iff _).mpr ?_, hhigh, hlow⟩
  · omega
  · omega

theorem exists_basic {c : UInt16} (hhigh : isHighSurrogate c = false) (hlow : isLowSurrogate c = false) :
    ∃ scalar : Char, encodeChar scalar = [c] := by
  have hbound := c.toNat_lt
  have hvalid : c.toNat.isValidChar := by
    by_contra hne
    have hsurrogate : 0xD800 ≤ c.toNat ∧ c.toNat ≤ 0xDFFF := by
      unfold Nat.isValidChar at hne
      omega
    by_cases hle : c.toNat ≤ 0xDBFF
    · rw [(isHighSurrogate_iff c).mpr ⟨hsurrogate.1, hle⟩] at hhigh
      cases hhigh
    · rw [(isLowSurrogate_iff c).mpr ⟨by omega, hsurrogate.2⟩] at hlow
      cases hlow
  have hnat : (Char.ofNatAux c.toNat hvalid).toNat = c.toNat := rfl
  have hval : (Char.ofNatAux c.toNat hvalid).val < 0x10000 := by
    rw [UInt32.lt_iff_toNat_lt]
    exact hbound
  refine ⟨Char.ofNatAux c.toNat hvalid, (if_pos hval).trans ?_⟩
  congr 1
  rw [← UInt16.toNat_inj, UInt32.toNat_toUInt16]
  exact Nat.mod_eq_of_lt hbound

theorem exists_pair {high low : UInt16} (hhigh : isHighSurrogate high = true) (hlow : isLowSurrogate low = true) :
    ∃ scalar : Char, encodeChar scalar = [high, low] := by
  have hh := (isHighSurrogate_iff high).mp hhigh
  have hl := (isLowSurrogate_iff low).mp hlow
  have hvalid : (0x10000 + (high.toNat - 0xD800) * 0x400 + (low.toNat - 0xDC00)).isValidChar := by
    unfold Nat.isValidChar
    omega
  have hnat : (Char.ofNatAux _ hvalid).toNat = 0x10000 + (high.toNat - 0xD800) * 0x400 + (low.toNat - 0xDC00) := rfl
  obtain ⟨first, second, hunits, -, -, hfirst, hsecond⟩ := encodeChar_pair (show ¬(Char.ofNatAux _ hvalid).toNat < 0x10000 by omega)
  rw [hnat] at hfirst hsecond
  refine ⟨Char.ofNatAux _ hvalid, ?_⟩
  rw [hunits, show first = high from UInt16.toNat_inj.mp (by omega), show second = low from UInt16.toNat_inj.mp (by omega)]

theorem paired_append {c : Char} {rest : List UInt16} (h : paired rest = true) : paired (encodeChar c ++ rest) = true := by
  by_cases hbasic : c.toNat < 0x10000
  · obtain ⟨unit, hunit, hhigh, hlow⟩ := encodeChar_basic hbasic
    rw [hunit]
    cases rest with
    | nil => simp [paired, isSurrogate, hhigh, hlow]
    | cons d others => simp [paired, hhigh, hlow, h]
  · obtain ⟨high, low, hunits, hhigh, hlow, -⟩ := encodeChar_pair hbasic
    rw [hunits]
    simp [paired, hhigh, hlow, h]

theorem exists_scalars (units : List UInt16) (h : paired units = true) :
    ∃ scalars : List Char, units = scalars.flatMap encodeChar := by
  induction units using paired.induct with
  | case1 => exact ⟨[], rfl⟩
  | case2 c =>
      simp only [paired, isSurrogate, Bool.not_eq_true', Bool.or_eq_false_iff] at h
      obtain ⟨scalar, hscalar⟩ := exists_basic h.1 h.2
      exact ⟨[scalar], by simp [hscalar]⟩
  | case3 c d rest hhigh ih =>
      simp only [paired, hhigh, if_true, Bool.and_eq_true] at h
      obtain ⟨scalars, rfl⟩ := ih h.2
      obtain ⟨scalar, hscalar⟩ := exists_pair hhigh h.1
      exact ⟨scalar :: scalars, by simp [hscalar]⟩
  | case4 c d rest hhigh ih =>
      rw [paired, if_neg hhigh, Bool.and_eq_true, Bool.not_eq_true'] at h
      obtain ⟨scalars, hscalars⟩ := ih h.2
      obtain ⟨scalar, hscalar⟩ := exists_basic (by simpa using hhigh) h.1
      exact ⟨scalar :: scalars, by simp [hscalar, hscalars]⟩

-- A text that is the UTF-16 encoding of a sequence of Unicode scalar values.
def WellFormed (text : JsString) : Prop := ∃ scalars : List Char, text.units = scalars.flatMap encodeChar

theorem wellFormed_iff (text : JsString) : WellFormed text ↔ LONE_SURROGATE text = false := by
  rw [LONE_SURROGATE, loneSurrogateAfter_iff text.units rfl]
  constructor
  · rintro ⟨scalars, hscalars⟩
    rw [hscalars]
    clear hscalars
    induction scalars with
    | nil => rfl
    | cons scalar rest ih => exact paired_append ih
  · exact exists_scalars text.units

end JsString

namespace Json

-- Every string and every member name in a value, and every number.
def texts : Json → List JsString
  | .str text => [text]
  | .arr elements => items elements
  | .obj entries => members entries
  | _ => []
where
  items : List Json → List JsString
    | [] => []
    | item :: rest => item.texts ++ items rest
  members : List (JsString × Json) → List JsString
    | [] => []
    | (name, value) :: rest => name :: (value.texts ++ members rest)

def numbers : Json → List JsNum
  | .num n => [n]
  | .arr elements => items elements
  | .obj entries => members entries
  | _ => []
where
  items : List Json → List JsNum
    | [] => []
    | item :: rest => item.numbers ++ items rest
  members : List (JsString × Json) → List JsNum
    | [] => []
    | (_, value) :: rest => value.numbers ++ members rest

mutual

theorem hasLoneSurrogate_eq (value : Json) : hasLoneSurrogate value = value.texts.any LONE_SURROGATE := by
  match value with
  | .null => rfl
  | .bool _ => rfl
  | .num _ => rfl
  | .str text => simp [hasLoneSurrogate, texts]
  | .arr elements => exact items_texts elements
  | .obj entries => exact members_texts entries

theorem items_texts (elements : List Json) :
    hasLoneSurrogate.items elements = (texts.items elements).any LONE_SURROGATE := by
  match elements with
  | [] => rfl
  | item :: rest => rw [hasLoneSurrogate.items, texts.items, List.any_append, hasLoneSurrogate_eq item, items_texts rest]

theorem members_texts (entries : List (JsString × Json)) :
    hasLoneSurrogate.members entries = (texts.members entries).any LONE_SURROGATE := by
  match entries with
  | [] => rfl
  | (name, value) :: rest =>
      rw [hasLoneSurrogate.members, texts.members, List.any_cons, List.any_append, hasLoneSurrogate_eq value,
        members_texts rest, Bool.or_assoc]

end

mutual

theorem hasUnsafeNumber_eq (value : Json) : hasUnsafeNumber value = value.numbers.any JsNum.isUnsafe := by
  match value with
  | .null => rfl
  | .bool _ => rfl
  | .num n => simp [hasUnsafeNumber, numbers]
  | .str _ => rfl
  | .arr elements => exact items_numbers elements
  | .obj entries => exact members_numbers entries

theorem items_numbers (elements : List Json) :
    hasUnsafeNumber.items elements = (numbers.items elements).any JsNum.isUnsafe := by
  match elements with
  | [] => rfl
  | item :: rest => rw [hasUnsafeNumber.items, numbers.items, List.any_append, hasUnsafeNumber_eq item, items_numbers rest]

theorem members_numbers (entries : List (JsString × Json)) :
    hasUnsafeNumber.members entries = (numbers.members entries).any JsNum.isUnsafe := by
  match entries with
  | [] => rfl
  | (name, value) :: rest =>
      rw [hasUnsafeNumber.members, numbers.members, List.any_append, hasUnsafeNumber_eq value, members_numbers rest]

end

end Json

-- A number the canonical form excludes: none at all, or an integer that may have lost digits.
def Unrepresentable (n : JsNum) : Prop := n.isFinite = false ∨ ∃ value, n = .fin value ∧ value.den = 1 ∧ MAX_SAFE_INTEGER < |value|

theorem isUnsafe_iff (n : JsNum) : n.isUnsafe = true ↔ Unrepresentable n := by
  cases n <;> simp [JsNum.isUnsafe, Unrepresentable, JsNum.isFinite, JsNum.isInteger]

end AuditableMcp
