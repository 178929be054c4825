import AuditableMcp.Library.Base64
import AuditableMcp.Models
import Mathlib.Data.List.DropRight
import Mathlib.Data.Bool.AllAny

-- crypto/base64.ts over the platform's `btoa` and `atob`.
namespace AuditableMcp

def PAD : UInt16 := 0x3D

-- The characters of standard base64: A-Z, a-z, 0-9, + and /.
def base64Char (n : Nat) : UInt16 :=
  (if n < 26 then n + 65 else if n < 52 then n + 71 else if n < 62 then n - 4 else if n = 62 then 43 else 47).toUInt16

def base64Value (c : UInt16) : Option Nat :=
  let n := c.toNat
  if 65 ≤ n ∧ n ≤ 90 then some (n - 65)
  else if 97 ≤ n ∧ n ≤ 122 then some (n - 71)
  else if 48 ≤ n ∧ n ≤ 57 then some (n + 4)
  else if n = 43 then some 62
  else if n = 47 then some 63
  else none

def padding (length : Nat) : List UInt16 := List.replicate ((4 - length % 4) % 4) PAD

-- `btoa(toBinary(bytes))`
def bytesToBase64 (bytes : List UInt8) : JsString :=
  let characters := (Base64.encode bytes).map base64Char
  ⟨characters ++ padding characters.length⟩

def isAsciiWhitespace (c : UInt16) : Bool := c ∈ ([0x09, 0x0A, 0x0C, 0x0D, 0x20] : List UInt16)

-- One or two padding characters at the end of a text.
def withoutPadding (units : List UInt16) : List UInt16 :=
  match units.reverse with
  | a :: b :: rest => if a = PAD then (if b = PAD then rest.reverse else (b :: rest).reverse) else units
  | [a] => if a = PAD then [] else units
  | [] => []

-- `fromBinary(atob(text))`, where `atob` may throw: a forgiving decoder.
def atob (text : JsString) : Option (List UInt8) :=
  let units := text.units.filter fun c => !isAsciiWhitespace c
  let body := if units.length % 4 = 0 then withoutPadding units else units
  if body.length % 4 = 1 then none else (body.mapM base64Value).map Base64.decode

-- ^[A-Za-z0-9+/]*={0,2}$
def STANDARD_BASE64 : Pattern UInt16 :=
  .seq (.star (.among [upperRange, lowerRange, digitRange, (0x2B, 0x2B), (0x2F, 0x2F)]))
    (.seq (.optional (lit "=")) (.optional (lit "=")))

def base64ToBytes (text : JsString) : Except JsError (List UInt8) :=
  if text.length % 4 ≠ 0 ∨ STANDARD_BASE64.test text.units = false then .error .typeError
  else
    match atob text with
    | some bytes => .ok bytes
    | none => .error .typeError

def toUrlCharacter (c : UInt16) : UInt16 := if c = 0x2B then 0x2D else if c = 0x2F then 0x5F else c

def fromUrlCharacter (c : UInt16) : UInt16 := if c = 0x2D then 0x2B else if c = 0x5F then 0x2F else c

def bytesToBase64url (bytes : List UInt8) : JsString :=
  ⟨((bytesToBase64 bytes).units.map toUrlCharacter).rdropWhile (· = PAD)⟩

-- ^[A-Za-z0-9_-]*$
def BASE64URL : Pattern UInt16 := .star base64urlClass

def base64urlToBytes : Option Json → Option (List UInt8)
  | some (.str value) =>
      if BASE64URL.test value.units = false ∨ value.length % 4 = 1 then none
      else
        match atob ⟨value.units.map fromUrlCharacter ++ padding value.length⟩ with
        | none => none
        | some raw => if bytesToBase64url raw = value then some raw else none
  | _ => none

theorem base64Value_base64Char : ∀ n < 64, base64Value (base64Char n) = some n := by decide

theorem base64Char_of_value {c : UInt16} {n : Nat} (h : base64Value c = some n) : n < 64 ∧ base64Char n = c := by
  have hc := c.toNat_lt
  have hback (m : Nat) (hm : m = c.toNat) : m.toUInt16 = c := by
    rw [hm]
    simp
  unfold base64Value at h
  unfold base64Char
  dsimp only at h
  split_ifs at h with h₁ h₂ h₃ h₄ h₅ <;> obtain rfl := Option.some.inj h
  · exact ⟨by omega, by rw [if_pos (by omega)]; exact hback _ (by omega)⟩
  · exact ⟨by omega, by rw [if_neg (by omega), if_pos (by omega)]; exact hback _ (by omega)⟩
  · exact ⟨by omega, by rw [if_neg (by omega), if_neg (by omega), if_pos (by omega)]; exact hback _ (by omega)⟩
  · exact ⟨by omega, hback 43 h₄.symm⟩
  · exact ⟨by omega, hback 47 h₅.symm⟩

theorem mapM_base64Value {values : List Nat} (hlt : ∀ n ∈ values, n < 64) :
    (values.map base64Char).mapM base64Value = some values := by
  induction values with
  | nil => rfl
  | cons n rest ih =>
      rw [List.map_cons, List.mapM_cons, base64Value_base64Char n (hlt n (by simp)), ih fun m hm => hlt m (by simp [hm])]
      rfl

theorem values_of_mapM {units : List UInt16} {values : List Nat} (h : units.mapM base64Value = some values) :
    (∀ n ∈ values, n < 64) ∧ units = values.map base64Char := by
  induction units generalizing values with
  | nil =>
      obtain rfl : [] = values := by simpa using h
      simp
  | cons c rest ih =>
      rw [List.mapM_cons] at h
      obtain ⟨n, hn, h⟩ := Option.bind_eq_some_iff.mp h
      obtain ⟨others, ho, h⟩ := Option.bind_eq_some_iff.mp h
      obtain rfl : n :: others = values := by simpa using h
      obtain ⟨hlt, rfl⟩ := ih ho
      obtain ⟨hone, rfl⟩ := base64Char_of_value hn
      exact ⟨by simpa using ⟨hone, hlt⟩, rfl⟩

-- What the alphabet is made of.
structure Base64Character (c : UInt16) : Prop where
  notPad : c ≠ PAD
  notBlank : isAsciiWhitespace c = false
  standard : Pattern.inRanges [upperRange, lowerRange, digitRange, (0x2B, 0x2B), (0x2F, 0x2F)] c = true
  unpadded : Pattern.allows c (.seq (.optional (lit "=")) (.optional (lit "="))) = false
  url : Pattern.inRanges [upperRange, lowerRange, digitRange, (0x5F, 0x5F), (0x2D, 0x2D)] (toUrlCharacter c) = true
  urlNotPad : toUrlCharacter c ≠ PAD
  back : fromUrlCharacter (toUrlCharacter c) = c

theorem base64Character : ∀ n < 64, Base64Character (base64Char n) := by
  have h : ∀ n < 64, base64Char n ≠ PAD ∧ isAsciiWhitespace (base64Char n) = false ∧
      Pattern.inRanges [upperRange, lowerRange, digitRange, (0x2B, 0x2B), (0x2F, 0x2F)] (base64Char n) = true ∧
      Pattern.allows (base64Char n) (.seq (.optional (lit "=")) (.optional (lit "="))) = false ∧
      Pattern.inRanges [upperRange, lowerRange, digitRange, (0x5F, 0x5F), (0x2D, 0x2D)]
        (toUrlCharacter (base64Char n)) = true ∧
      toUrlCharacter (base64Char n) ≠ PAD ∧ fromUrlCharacter (toUrlCharacter (base64Char n)) = base64Char n := by
    decide
  intro n hn
  obtain ⟨h₁, h₂, h₃, h₄, h₅, h₆, h₇⟩ := h n hn
  exact ⟨h₁, h₂, h₃, h₄, h₅, h₆, h₇⟩

theorem withoutPadding_append {body : List UInt16} (hbody : ∀ c ∈ body, c ≠ PAD) {k : Nat} (hk : k ≤ 2) :
    withoutPadding (body ++ List.replicate k PAD) = body := by
  have hlast (c : UInt16) (rest : List UInt16) (h : body.reverse = c :: rest) : c ≠ PAD :=
    hbody c (by rw [← List.mem_reverse, h]; simp)
  unfold withoutPadding
  match k, hk with
  | 0, _ =>
      simp only [List.replicate_zero, List.append_nil]
      match h : body.reverse with
      | [] => rw [List.reverse_eq_nil_iff.mp h]
      | [a] => simp [hlast a [] h]
      | a :: b :: rest => simp [hlast a (b :: rest) h]
  | 1, _ =>
      rw [List.reverse_append]
      match h : body.reverse with
      | [] =>
          rw [List.reverse_eq_nil_iff.mp h]
          rfl
      | b :: rest =>
          have hb := hlast b rest h
          simp only [List.replicate_one, List.reverse_singleton, List.singleton_append, ite_true, hb, ite_false]
          rw [← h, List.reverse_reverse]
  | 2, _ =>
      rw [List.reverse_append]
      show (if PAD = PAD then if PAD = PAD then body.reverse.reverse else _ else _) = body
      simp

theorem withoutPadding_spec (units : List UInt16) :
    ∃ k ≤ 2, units = withoutPadding units ++ List.replicate k PAD := by
  unfold withoutPadding
  match h : units.reverse with
  | [] => exact ⟨0, by omega, by rw [List.reverse_eq_nil_iff.mp h]; rfl⟩
  | [a] =>
      have hu : units = [a] := by rw [← List.reverse_reverse units, h]; rfl
      by_cases ha : a = PAD
      · exact ⟨1, by omega, by rw [hu, ha]; rfl⟩
      · exact ⟨0, by omega, by simp [ha]⟩
  | a :: b :: rest =>
      have hu : units = rest.reverse ++ [b] ++ [a] := by rw [← List.reverse_reverse units, h]; simp
      by_cases ha : a = PAD
      · by_cases hb : b = PAD
        · exact ⟨2, by omega, by rw [hu, ha, hb]; simp [List.replicate]⟩
        · exact ⟨1, by omega, by rw [hu, ha]; simp [hb]⟩
      · exact ⟨0, by omega, by simp [ha]⟩

section

variable {values : List Nat} {k : Nat}

theorem filter_blank (units : List UInt16) (h : ∀ c ∈ units, isAsciiWhitespace c = false) :
    (units.filter fun c => !isAsciiWhitespace c) = units :=
  List.filter_eq_self.mpr fun c hc => by rw [h c hc]; rfl

theorem atob_values (hlt : ∀ n ∈ values, n < 64) (hk : k ≤ 2) (hlength : (values.length + k) % 4 = 0) :
    atob ⟨values.map base64Char ++ List.replicate k PAD⟩ = some (Base64.decode values) := by
  have hchars : ∀ c ∈ values.map base64Char, Base64Character c := by
    intro c hc
    obtain ⟨n, hn, rfl⟩ := List.mem_map.mp hc
    exact base64Character n (hlt n hn)
  have hblank : ∀ c ∈ values.map base64Char ++ List.replicate k PAD, isAsciiWhitespace c = false := by
    intro c hc
    rcases List.mem_append.mp hc with hm | hm
    · exact (hchars c hm).notBlank
    · rw [List.eq_of_mem_replicate hm]
      decide
  have hmod : (values.map base64Char ++ List.replicate k PAD).length % 4 = 0 := by simpa using hlength
  unfold atob
  rw [filter_blank _ hblank]
  dsimp only
  rw [if_pos hmod, withoutPadding_append (fun c hc => (hchars c hc).notPad) hk,
    if_neg (by rw [List.length_map]; omega), mapM_base64Value hlt]
  rfl

theorem padding_length (length : Nat) (h : length % 4 ≠ 1) :
    ∃ k ≤ 2, padding length = List.replicate k PAD ∧ (length + k) % 4 = 0 :=
  ⟨(4 - length % 4) % 4, by omega, rfl, by omega⟩

end

-- A text in the alphabet of standard base64, padded to a multiple of four.
def PaddedBase64 (text : JsString) : Prop :=
  ∃ (values : List Nat) (k : Nat), (∀ n ∈ values, n < 64) ∧ k ≤ 2 ∧ (values.length + k) % 4 = 0 ∧
    text.units = values.map base64Char ++ List.replicate k PAD

theorem standard_test {values : List Nat} {k : Nat} (hlt : ∀ n ∈ values, n < 64) (hk : k ≤ 2) :
    STANDARD_BASE64.test (values.map base64Char ++ List.replicate k PAD) = true := by
  unfold STANDARD_BASE64
  rw [Pattern.test_star_seq]
  · match k, hk with
    | 0, _ => decide
    | 1, _ => decide
    | 2, _ => decide
  · intro c hc
    obtain ⟨n, hn, rfl⟩ := List.mem_map.mp hc
    have := base64Character n (hlt n hn)
    exact ⟨this.standard, this.unpadded⟩

theorem base64ToBytes_padded {text : JsString} {values : List Nat} {k : Nat} (hlt : ∀ n ∈ values, n < 64)
    (hk : k ≤ 2) (hlength : (values.length + k) % 4 = 0)
    (htext : text.units = values.map base64Char ++ List.replicate k PAD) :
    base64ToBytes text = .ok (Base64.decode values) := by
  obtain ⟨units⟩ := text
  simp only at htext
  subst htext
  unfold base64ToBytes
  rw [if_neg, atob_values hlt hk hlength]
  rw [not_or, not_not, Bool.not_eq_false]
  exact ⟨by simpa [JsString.length] using hlength, standard_test hlt hk⟩

theorem padded_of_base64ToBytes {text : JsString} {bytes : List UInt8} (h : base64ToBytes text = .ok bytes) :
    PaddedBase64 text := by
  unfold base64ToBytes at h
  split at h
  · cases h
  · rename_i hshape
    rw [not_or, not_not, Bool.not_eq_false] at hshape
    obtain ⟨hlength, htest⟩ := hshape
    split at h
    · rename_i decoded hdecoded
      unfold atob at hdecoded
      have hblank : ∀ c ∈ text.units, isAsciiWhitespace c = false := by
        intro c hc
        have hallowed := Pattern.allows_of_test _ _ htest c hc
        cases hb : isAsciiWhitespace c with
        | false => rfl
        | true =>
            have hwhite : ∀ d ∈ ([0x09, 0x0A, 0x0C, 0x0D, 0x20] : List UInt16),
              Pattern.allows d STANDARD_BASE64 = false := List.all_iff_forall_prop.mp (by decide)
            rw [hwhite c (by simpa [isAsciiWhitespace] using hb)] at hallowed
            cases hallowed
      rw [filter_blank _ hblank] at hdecoded
      dsimp only at hdecoded
      have hmod : text.units.length % 4 = 0 := hlength
      rw [if_pos hmod] at hdecoded
      obtain ⟨k, hk, hunits⟩ := withoutPadding_spec text.units
      split at hdecoded
      · cases hdecoded
      · obtain ⟨values, hvalues, -⟩ := Option.map_eq_some_iff.mp hdecoded
        obtain ⟨hlt, hbody⟩ := values_of_mapM hvalues
        rw [hbody] at hunits
        refine ⟨values, k, hlt, hk, ?_, hunits⟩
        have := hlength
        rw [JsString.length, hunits] at this
        simpa using this
    · cases h

theorem base64ToBytes_isOk {text : JsString} : (∃ bytes, base64ToBytes text = .ok bytes) ↔ PaddedBase64 text :=
  ⟨fun ⟨_, h⟩ => padded_of_base64ToBytes h, fun ⟨_, _, hlt, hk, hlength, htext⟩ =>
    ⟨_, base64ToBytes_padded hlt hk hlength htext⟩⟩

-- Standard base64 reads back what it wrote.
theorem base64ToBytes_bytesToBase64 (bytes : List UInt8) : base64ToBytes (bytesToBase64 bytes) = .ok bytes := by
  obtain ⟨k, hk, hpad, hlength⟩ := padding_length _ (Base64.length_encode_mod bytes)
  rw [base64ToBytes_padded (Base64.encode_lt bytes) hk hlength
    (show (bytesToBase64 bytes).units = _ by simp [bytesToBase64, hpad]), Base64.decode_encode]

def urlChar (n : Nat) : UInt16 := toUrlCharacter (base64Char n)

theorem bytesToBase64url_eq (bytes : List UInt8) : bytesToBase64url bytes = ⟨(Base64.encode bytes).map urlChar⟩ := by
  have hnotPad : ∀ c ∈ ((Base64.encode bytes).map urlChar).reverse, decide (c = PAD) = false := by
    intro c hc
    obtain ⟨n, hn, rfl⟩ := List.mem_map.mp (List.mem_reverse.mp hc)
    exact decide_eq_false (base64Character n (Base64.encode_lt bytes n hn)).urlNotPad
  have hkeep (units : List UInt16) (h : ∀ c ∈ units, decide (c = PAD) = false) :
      units.dropWhile (fun c => decide (c = PAD)) = units := by
    cases units with
    | nil => rfl
    | cons c rest => rw [List.dropWhile_cons, h c (by simp)]; rfl
  unfold bytesToBase64url bytesToBase64 padding
  dsimp only
  rw [List.map_append, List.map_map, List.map_replicate, show toUrlCharacter PAD = PAD by decide, List.rdropWhile,
    List.reverse_append, List.reverse_replicate,
    List.dropWhile_append_of_pos fun c hc => by simpa using List.eq_of_mem_replicate hc]
  show JsString.mk (List.dropWhile _ ((Base64.encode bytes).map urlChar).reverse).reverse = _
  rw [hkeep _ hnotPad, List.reverse_reverse]

-- Unpadded base64url reads back what it wrote.
theorem base64urlToBytes_bytesToBase64url (bytes : List UInt8) :
    base64urlToBytes (some (.str (bytesToBase64url bytes))) = some bytes := by
  have hlt := Base64.encode_lt bytes
  have hmod := Base64.length_encode_mod bytes
  have hlength : (bytesToBase64url bytes).length = (Base64.encode bytes).length := by
    rw [bytesToBase64url_eq]
    simp [JsString.length]
  obtain ⟨k, hk, hpad, hpadded⟩ := padding_length _ hmod
  have hback : (bytesToBase64url bytes).units.map fromUrlCharacter = (Base64.encode bytes).map base64Char := by
    rw [bytesToBase64url_eq, List.map_map]
    exact List.map_congr_left fun n hn => (base64Character n (hlt n hn)).back
  have htest : BASE64URL.test (bytesToBase64url bytes).units = true := by
    rw [bytesToBase64url_eq, BASE64URL, base64urlClass, Pattern.test_star_among, List.all_eq_true]
    intro c hc
    obtain ⟨n, hn, rfl⟩ := List.mem_map.mp hc
    exact (base64Character n (hlt n hn)).url
  simp only [base64urlToBytes]
  rw [if_neg (by rw [htest, hlength]; simpa using hmod), hlength, hback, hpad, atob_values hlt hk hpadded,
    Base64.decode_encode]
  simp

-- The decoder refuses every text the encoder does not write.
theorem eq_of_base64urlToBytes {text : JsString} {bytes : List UInt8}
    (h : base64urlToBytes (some (.str text)) = some bytes) : text = bytesToBase64url bytes := by
  simp only [base64urlToBytes] at h
  split at h
  · cases h
  · split at h
    · cases h
    · split at h
      · rename_i hsame
        rw [← Option.some.inj h, hsame]
      · cases h

-- A text of base64url characters that reads as padded base64 is base64url as well: it has no
-- padding, so its length is a multiple of four and no bit of it strays.
theorem url_of_base64ToBytes {text : JsString} {bytes : List UInt8}
    (hurl : ∀ c ∈ text.units, Pattern.allows c SIGNATURE_PATTERN = true) (h : base64ToBytes text = .ok bytes) :
    ∃ raw, text = bytesToBase64url raw := by
  obtain ⟨values, k, hlt, hk, hlength, hunits⟩ := padded_of_base64ToBytes h
  have hpad : k = 0 := by
    by_contra hne
    have hmem : PAD ∈ text.units := by
      rw [hunits]
      exact List.mem_append_right _ (List.mem_replicate.mpr ⟨hne, rfl⟩)
    have hno : Pattern.allows PAD SIGNATURE_PATTERN = false := by decide
    rw [hurl PAD hmem] at hno
    cases hno
  subst hpad
  refine ⟨Base64.decode values, ?_⟩
  rw [bytesToBase64url_eq, Base64.encode_decode values hlt (by simpa using hlength)]
  obtain ⟨units⟩ := text
  simp only [List.replicate_zero, List.append_nil] at hunits
  subst hunits
  congr 1
  refine List.map_congr_left fun n hn => ?_
  have hallowed := hurl (base64Char n) (List.mem_map_of_mem hn)
  have hsame : ∀ m < 64, Pattern.allows (base64Char m) SIGNATURE_PATTERN = true → base64Char m = urlChar m := by
    decide
  exact hsame n (hlt n hn) hallowed

theorem length_bytesToBase64url (bytes : List UInt8) :
    (bytesToBase64url bytes).length = (bytes.length * 4 + 2) / 3 := by
  rw [bytesToBase64url_eq]
  simp [JsString.length, Base64.length_encode]

-- The number a base64url character stands for.
def urlValue (c : UInt16) : Option Nat := if c = 0x2B ∨ c = 0x2F then none else base64Value (fromUrlCharacter c)

-- The last character of a text has bits that no byte takes up.
def StrayBits (text : JsString) : Prop :=
  ∃ c n, text.units.getLast? = some c ∧ urlValue c = some n ∧
    (text.length % 4 = 2 ∧ n % 16 ≠ 0 ∨ text.length % 4 = 3 ∧ n % 4 ≠ 0)

theorem urlValue_urlChar : ∀ n < 64, urlValue (urlChar n) = some n := by decide

theorem outside_alphabet (c : UInt16) (h : urlValue c = none) (n : Nat) (hn : n < 64) : urlChar n ≠ c := by
  rintro rfl
  rw [urlValue_urlChar n hn] at h
  cases h

-- There is one text for each list of bytes, and whatever else a text is spelled with is refused.
theorem base64url_one_spelling :
    (∀ text bytes, base64urlToBytes (some (.str text)) = some bytes ↔ text = bytesToBase64url bytes) ∧
    (∀ bytes, base64urlToBytes (some (.str (bytesToBase64url bytes))) = some bytes) ∧
    (∀ first second bytes, base64urlToBytes (some (.str first)) = some bytes →
      base64urlToBytes (some (.str second)) = some bytes → first = second) ∧
    ∀ text : JsString, PAD ∈ text.units ∨ (∃ c ∈ text.units, urlValue c = none) ∨ text.length % 4 = 1 ∨ StrayBits text →
      base64urlToBytes (some (.str text)) = none := by
  have hiff : ∀ text bytes, base64urlToBytes (some (.str text)) = some bytes ↔ text = bytesToBase64url bytes := by
    intro text bytes
    constructor
    · exact eq_of_base64urlToBytes
    · rintro rfl
      exact base64urlToBytes_bytesToBase64url bytes
  refine ⟨hiff, base64urlToBytes_bytesToBase64url, fun first second bytes hfirst hsecond => ?_, fun text htext => ?_⟩
  · rw [(hiff first bytes).mp hfirst, (hiff second bytes).mp hsecond]
  · by_contra hne
    obtain ⟨bytes, hbytes⟩ := Option.ne_none_iff_exists'.mp hne
    have hlt := Base64.encode_lt bytes
    have hunits : text.units = (Base64.encode bytes).map urlChar := by
      rw [(hiff text bytes).mp hbytes, bytesToBase64url_eq]
    have hlength : text.length = (Base64.encode bytes).length := by rw [JsString.length, hunits, List.length_map]
    rcases htext with hpad | ⟨c, hc, hnone⟩ | hone | ⟨c, n, hlast, hvalue, hbits⟩
    · rw [hunits] at hpad
      obtain ⟨n, hn, hchar⟩ := List.mem_map.mp hpad
      exact outside_alphabet PAD (by decide) n (hlt n hn) hchar
    · rw [hunits] at hc
      obtain ⟨n, hn, hchar⟩ := List.mem_map.mp hc
      exact outside_alphabet c hnone n (hlt n hn) hchar
    · rw [hlength] at hone
      exact Base64.length_encode_mod bytes hone
    · rw [hunits, List.getLast?_map, Option.map_eq_some_iff] at hlast
      obtain ⟨m, hm, rfl⟩ := hlast
      have hmem : m ∈ Base64.encode bytes := List.mem_of_getLast? hm
      obtain rfl : m = n := by simpa [urlValue_urlChar m (hlt m hmem)] using hvalue
      have hwhole := Base64.encode_whole bytes hm
      rw [hlength] at hbits
      exact hbits.elim (fun h => h.2 (hwhole.1 h.1)) fun h => h.2 (hwhole.2 h.1)

end AuditableMcp
