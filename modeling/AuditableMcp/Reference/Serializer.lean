import AuditableMcp.Canonical
import AuditableMcp.Json.Stringify
import Mathlib.Data.Bool.AllAny

-- A serializer as RFC 8785 has it: members in order, then the text of JSON. Its numbers
-- are those of RFC 8785 where they are integers in the safe range; any other number has
-- a text of its own that stands in for the shortest decimal.
namespace AuditableMcp.Reference

def hexValue (c : UInt16) : Nat := if c.toNat < 0x3A then c.toNat - 0x30 else c.toNat - 0x57

-- One unit of a quoted string, read back.
def unescape : List UInt16 → Option (UInt16 × List UInt16)
  | [] => none
  | c :: rest =>
      if c = 0x22 then none
      else if c = 0x5C then
        match rest with
        | [] => none
        | letter :: more =>
            if letter = 0x75 then
              match more with
              | a :: b :: c :: d :: tail =>
                  some ((hexValue a * 4096 + hexValue b * 256 + hexValue c * 16 + hexValue d).toUInt16, tail)
              | _ => none
            else (shortEscapes.find? fun entry => entry.1 = letter).map fun entry => (entry.2, more)
      else some (c, rest)

theorem hexValue_hexDigit : ∀ n < 16, hexValue (hexDigit n) = n := by decide

theorem unescape_hexEscape (c : UInt16) (rest : List UInt16) : unescape (hexEscape c ++ rest) = some (c, rest) := by
  have hc := c.toNat_lt
  have hvalue : hexValue (hexDigit (c.toNat / 4096)) * 4096 + hexValue (hexDigit (c.toNat / 256 % 16)) * 256 +
      hexValue (hexDigit (c.toNat / 16 % 16)) * 16 + hexValue (hexDigit (c.toNat % 16)) = c.toNat := by
    rw [hexValue_hexDigit _ (by omega), hexValue_hexDigit _ (by omega), hexValue_hexDigit _ (by omega),
      hexValue_hexDigit _ (by omega)]
    omega
  simp only [hexEscape, List.cons_append, List.nil_append, unescape]
  rw [if_neg (by decide), if_pos trivial, if_pos trivial, hvalue]
  simp

theorem unescape_quoteUnit (c : UInt16) (rest : List UInt16) : unescape (quoteUnit c ++ rest) = some (c, rest) := by
  unfold quoteUnit
  split
  · rename_i letter value hfind
    have hsame : value = c := by simpa using List.find?_some hfind
    have hback : ∀ entry ∈ shortEscapes, entry.1 ≠ 0x75 ∧
        (shortEscapes.find? fun other => other.1 = entry.1) = some entry :=
      List.all_iff_forall_prop.mp (by decide)
    obtain ⟨hletter, hentry⟩ := hback _ (List.mem_of_find?_eq_some hfind)
    simp only [List.cons_append, List.nil_append, unescape]
    rw [if_neg (by decide), if_pos trivial, if_neg hletter, hentry, ← hsame]
    rfl
  · rename_i hfind
    split
    · exact unescape_hexEscape c rest
    · have hplain : c ≠ 0x22 ∧ c ≠ 0x5C := by
        have h := List.find?_eq_none.mp hfind
        refine ⟨fun he => ?_, fun he => ?_⟩
        · exact h (0x22, 0x22) (by decide) (by simp [he])
        · exact h (0x5C, 0x5C) (by decide) (by simp [he])
      simp only [List.cons_append, List.nil_append, unescape]
      rw [if_neg hplain.1, if_neg hplain.2]

-- A quoted string ends where it says.
theorem quoteUnits_append_inj {first second : List UInt16} {p q : Option UInt16} {s t : List UInt16}
    (h : quoteUnits p first ++ 0x22 :: s = quoteUnits q second ++ 0x22 :: t) : first = second ∧ s = t := by
  have hread (previous : Option UInt16) (c : UInt16) (others rest : List UInt16) :
      ∃ code, quoteUnits previous (c :: others) ++ rest = code ++ (quoteUnits (some c) others ++ rest) ∧
        ∀ tail, unescape (code ++ tail) = some (c, tail) := by
    simp only [quoteUnits]
    split
    · exact ⟨hexEscape c, by simp, unescape_hexEscape c⟩
    · exact ⟨quoteUnit c, by simp, unescape_quoteUnit c⟩
  have hend (rest : List UInt16) : unescape (0x22 :: rest) = none := rfl
  induction first generalizing second p q with
  | nil =>
      cases second with
      | nil => exact ⟨rfl, (List.cons.inj h).2⟩
      | cons d others =>
          obtain ⟨code, hcode, hunescape⟩ := hread q d others (0x22 :: t)
          rw [hcode] at h
          have := hunescape (quoteUnits (some d) others ++ 0x22 :: t)
          rw [← h] at this
          exact absurd (this.symm.trans (hend s)) (by simp)
  | cons c rest ih =>
      obtain ⟨code, hcode, hunescape⟩ := hread p c rest (0x22 :: s)
      rw [hcode] at h
      have hfirst := hunescape (quoteUnits (some c) rest ++ 0x22 :: s)
      cases second with
      | nil =>
          rw [h] at hfirst
          exact absurd (hfirst.symm.trans (hend t)) (by simp)
      | cons d others =>
          obtain ⟨other, hother, hunescape'⟩ := hread q d others (0x22 :: t)
          rw [hother] at h
          rw [h, hunescape'] at hfirst
          obtain ⟨rfl, htail⟩ := Prod.mk.inj (Option.some.inj hfirst)
          obtain ⟨rfl, hs⟩ := ih htail.symm
          exact ⟨rfl, hs⟩

theorem quote_append_inj {first second : JsString} {s t : List UInt16} (h : quote first ++ s = quote second ++ t) :
    first = second ∧ s = t := by
  unfold quote at h
  simp only [List.cons_append, List.append_assoc, List.nil_append, List.cons.injEq, true_and] at h
  obtain ⟨hunits, hs⟩ := quoteUnits_append_inj h
  exact ⟨congrArg JsString.mk hunits, hs⟩

def decimal (n : Nat) : List UInt16 := (Nat.toDigits 10 n).map fun c => c.val.toUInt16

def integer (z : ℤ) : List UInt16 := if z < 0 then 0x2D :: decimal z.natAbs else decimal z.natAbs

def numberUnits : JsNum → List UInt16
  | .nan => [0x4E]
  | .posInf => [0x49]
  | .negInf => [0x2D, 0x49]
  | .fin q => if q.den = 1 then integer q.num else integer q.num ++ 0x2F :: decimal q.den

def numberText (n : JsNum) : JsString := ⟨numberUnits n⟩

-- The units a number is written with. None of them begins another value or ends one.
def numberAlphabet : List UInt16 :=
  [0x2D, 0x2F, 0x30, 0x31, 0x32, 0x33, 0x34, 0x35, 0x36, 0x37, 0x38, 0x39, 0x49, 0x4E]

def digits : List Char := ['0', '1', '2', '3', '4', '5', '6', '7', '8', '9']

theorem mem_digits {c : Char} (h : c.isDigit = true) : c ∈ digits := by
  obtain ⟨hlow, hhigh⟩ : 48 ≤ c.val.toNat ∧ c.val.toNat ≤ 57 := by
    simp only [Char.isDigit, ge_iff_le, Bool.and_eq_true, decide_eq_true_eq] at h
    exact ⟨UInt32.le_iff_toNat_le.mp h.1, UInt32.le_iff_toNat_le.mp h.2⟩
  have hc : c = Char.ofNat c.val.toNat := (Char.ofNat_toNat c).symm
  rw [hc]
  generalize c.val.toNat = n at hlow hhigh
  have : ∀ m ≤ 57, 48 ≤ m → Char.ofNat m ∈ digits := by decide
  exact this n hhigh hlow

theorem digit_units : ∀ c ∈ digits, c.val.toUInt16 ∈ numberAlphabet ∧ c.val.toUInt16 ≠ 0x2D ∧ c.val.toUInt16 ≠ 0x2F ∧
    c.val.toUInt16 ≠ 0x49 ∧ c.val.toUInt16 ≠ 0x4E := List.all_iff_forall_prop.mp (by decide)

theorem toDigits_digits (n : Nat) : ∀ c ∈ Nat.toDigits 10 n, c ∈ digits := fun _ hc =>
  mem_digits (Nat.isDigit_of_mem_toDigits (by decide) (by decide) hc)

theorem decimal_ne_nil (n : Nat) : decimal n ≠ [] := by simp [decimal]

theorem mem_decimal {n : Nat} {c : UInt16} (h : c ∈ decimal n) :
    c ∈ numberAlphabet ∧ c ≠ 0x2D ∧ c ≠ 0x2F ∧ c ≠ 0x49 ∧ c ≠ 0x4E := by
  obtain ⟨digit, hd, rfl⟩ := List.mem_map.mp h
  exact digit_units digit (toDigits_digits n digit hd)

theorem decimal_injective {m n : Nat} (h : decimal m = decimal n) : m = n := by
  have hmap : Nat.toDigits 10 m = Nat.toDigits 10 n := by
    have hinj : ∀ c ∈ digits, ∀ d ∈ digits, c.val.toUInt16 = d.val.toUInt16 → c = d := by
      simp only [← List.all_iff_forall_prop]
      decide
    have hlists : ∀ first second : List Char, (∀ c ∈ first, c ∈ digits) → (∀ c ∈ second, c ∈ digits) →
        (first.map fun c => c.val.toUInt16) = second.map (fun c => c.val.toUInt16) → first = second := by
      intro first
      induction first with
      | nil => intro second _ _ h; simpa using h.symm
      | cons c rest ih =>
          intro second hfirst hsecond h
          cases second with
          | nil => simp at h
          | cons d others =>
              obtain ⟨hcd, hrest⟩ := List.cons.inj h
              rw [hinj c (hfirst c (by simp)) d (hsecond d (by simp)) hcd,
                ih others (fun x hx => hfirst x (by simp [hx])) (fun x hx => hsecond x (by simp [hx])) hrest]
    exact hlists _ _ (toDigits_digits m) (toDigits_digits n) h
  rw [← Nat.ofDigitChars_toDigits (b := 10) (n := m) (by decide) (by decide), hmap,
    Nat.ofDigitChars_toDigits (by decide) (by decide)]

-- Two texts whose first part is of one kind of unit, and ends where that kind does.
theorem append_inj_of_span {α : Type} {p : α → Prop} {a b s t : List α} (ha : ∀ x ∈ a, p x) (hb : ∀ x ∈ b, p x)
    (hs : ∀ x ∈ s.head?, ¬p x) (ht : ∀ x ∈ t.head?, ¬p x) (h : a ++ s = b ++ t) : a = b ∧ s = t := by
  induction a generalizing b with
  | nil =>
      cases b with
      | nil => exact ⟨rfl, h⟩
      | cons y rest =>
          rw [List.nil_append] at h
          exact absurd (hb y (by simp)) (hs y (by simp [h]))
  | cons x rest ih =>
      cases b with
      | nil =>
          rw [List.nil_append] at h
          exact absurd (ha x (by simp)) (ht x (by simp [← h]))
      | cons y others =>
          obtain ⟨rfl, htail⟩ := List.cons.inj h
          obtain ⟨rfl, hst⟩ := ih (fun z hz => ha z (by simp [hz])) (fun z hz => hb z (by simp [hz])) htail
          exact ⟨rfl, hst⟩

theorem mem_integer {z : ℤ} {c : UInt16} (h : c ∈ integer z) :
    c ∈ numberAlphabet ∧ c ≠ 0x2F ∧ c ≠ 0x49 ∧ c ≠ 0x4E := by
  unfold integer at h
  split at h
  · rcases List.mem_cons.mp h with rfl | hm
    · decide
    · obtain ⟨h₁, -, h₂, h₃, h₄⟩ := mem_decimal hm
      exact ⟨h₁, h₂, h₃, h₄⟩
  · obtain ⟨h₁, -, h₂, h₃, h₄⟩ := mem_decimal h
    exact ⟨h₁, h₂, h₃, h₄⟩

theorem integer_injective {y z : ℤ} (h : integer y = integer z) : y = z := by
  have hsign {n : Nat} {rest : List UInt16} (he : 0x2D :: rest = decimal n) : False :=
    (mem_decimal (c := 0x2D) (n := n) (by rw [← he]; simp)).2.1 rfl
  unfold integer at h
  split at h <;> split at h
  · have := decimal_injective (List.cons.inj h).2
    omega
  · exact (hsign h).elim
  · exact (hsign h.symm).elim
  · have := decimal_injective h
    omega

theorem mem_numberUnits {n : JsNum} {c : UInt16} (h : c ∈ numberUnits n) : c ∈ numberAlphabet := by
  cases n with
  | nan | posInf =>
      rw [List.mem_singleton.mp h]
      decide
  | negInf =>
      simp only [numberUnits, List.mem_cons, List.not_mem_nil, or_false] at h
      rcases h with rfl | rfl <;> decide
  | fin q =>
      simp only [numberUnits] at h
      split at h
      · exact (mem_integer h).1
      · rcases List.mem_append.mp h with hm | hm
        · exact (mem_integer hm).1
        · rcases List.mem_cons.mp hm with rfl | hd
          · decide
          · exact (mem_decimal hd).1

theorem numberUnits_fin_inj {q r : ℚ} (h : numberUnits (.fin q) = numberUnits (.fin r)) : q = r := by
  have hslash {z : ℤ} {rest : List UInt16} {y : ℤ} (he : integer z ++ 0x2F :: rest = integer y) : False :=
    (mem_integer (c := 0x2F) (z := y) (by rw [← he]; simp)).2.1 rfl
  simp only [numberUnits] at h
  split at h <;> split at h
  · rename_i hq hr
    exact Rat.ext (integer_injective h) (by rw [hq, hr])
  · exact (hslash h.symm).elim
  · exact (hslash h).elim
  · obtain ⟨hnum, hden⟩ := append_inj_of_span (p := fun c => c ≠ 0x2F) (fun c hc => (mem_integer hc).2.1)
      (fun c hc => (mem_integer hc).2.1) (by simp) (by simp) h
    exact Rat.ext (integer_injective hnum) (decimal_injective (List.cons.inj hden).2)

-- A number that is not finite is written with a letter.
theorem numberUnits_letter {q : ℚ} {units : List UInt16} (hletter : 0x49 ∈ units ∨ 0x4E ∈ units) :
    units ≠ numberUnits (.fin q) := by
  have hno (c : UInt16) (hc : c = 0x49 ∨ c = 0x4E) : c ∉ numberUnits (.fin q) := by
    intro hm
    simp only [numberUnits] at hm
    split at hm
    · obtain ⟨-, -, hi, hn⟩ := mem_integer hm
      exact hc.elim hi hn
    · rcases List.mem_append.mp hm with hm | hm
      · obtain ⟨-, -, hi, hn⟩ := mem_integer hm
        exact hc.elim hi hn
      · rcases List.mem_cons.mp hm with rfl | hd
        · exact absurd hc (by decide)
        · obtain ⟨-, -, -, hi, hn⟩ := mem_decimal hd
          exact hc.elim hi hn
  intro he
  rw [he] at hletter
  exact hletter.elim (hno _ (Or.inl rfl)) (hno _ (Or.inr rfl))

theorem numberUnits_injective {m n : JsNum} (h : numberUnits m = numberUnits n) : m = n := by
  cases m <;> cases n <;> first
    | rfl
    | (rw [numberUnits_fin_inj h])
    | (exact absurd h (by decide))
    | (exact absurd h (numberUnits_letter (by decide)))
    | (exact absurd h.symm (numberUnits_letter (by decide)))

-- What may follow a value: the end, or a unit no number is written with.
def Delimited (tail : List UInt16) : Prop := ∀ c ∈ tail.head?, c ∉ numberAlphabet

theorem numberUnits_append_inj {m n : JsNum} {s t : List UInt16} (hs : Delimited s) (ht : Delimited t)
    (h : numberUnits m ++ s = numberUnits n ++ t) : m = n ∧ s = t := by
  obtain ⟨hunits, hst⟩ := append_inj_of_span (fun c hc => mem_numberUnits hc) (fun c hc => mem_numberUnits hc) hs ht h
  exact ⟨numberUnits_injective hunits, hst⟩

theorem integer_ne_nil (z : ℤ) : integer z ≠ [] := by
  unfold integer
  split
  · simp
  · exact decimal_ne_nil _

theorem numberUnits_ne_nil (n : JsNum) : numberUnits n ≠ [] := by
  cases n with
  | nan | posInf | negInf => simp [numberUnits]
  | fin q =>
      simp only [numberUnits]
      split
      · exact integer_ne_nil _
      · simp

-- The kind of value a unit begins.
def beginning (c : UInt16) : Nat :=
  if c = 0x6E then 0 else if c = 0x74 ∨ c = 0x66 then 1 else if c ∈ numberAlphabet then 2 else if c = 0x22 then 3
  else if c = 0x5B then 4 else if c = 0x7B then 5 else 6

def kindOf : Json → Nat
  | .null => 0
  | .bool _ => 1
  | .num _ => 2
  | .str _ => 3
  | .arr _ => 4
  | .obj _ => 5

theorem stringify_beginning (value : Json) :
    ∃ c rest, stringify numberText value = c :: rest ∧ beginning c = kindOf value := by
  cases value with
  | null => exact ⟨0x6E, _, rfl, rfl⟩
  | bool b =>
      cases b with
      | true => exact ⟨0x74, _, rfl, by decide⟩
      | false => exact ⟨0x66, _, rfl, by decide⟩
  | num n =>
      cases hunits : numberUnits n with
      | nil => exact absurd hunits (numberUnits_ne_nil n)
      | cons c rest =>
          have hin : c ∈ numberAlphabet := mem_numberUnits (n := n) (by rw [hunits]; simp)
          have hkinds : ∀ d ∈ numberAlphabet, beginning d = 2 :=
            List.all_iff_forall_prop.mp (by decide)
          exact ⟨c, rest, by simp [stringify, numberText, hunits], hkinds c hin⟩
  | str s => exact ⟨0x22, _, rfl, (by decide : beginning 0x22 = 3)⟩
  | arr elements => exact ⟨0x5B, _, by rw [stringify], (by decide : beginning 0x5B = 4)⟩
  | obj entries => exact ⟨0x7B, _, by rw [stringify], (by decide : beginning 0x7B = 5)⟩

theorem kindOf_eq {a b : Json} {s t : List UInt16}
    (h : stringify numberText a ++ s = stringify numberText b ++ t) : kindOf a = kindOf b := by
  obtain ⟨c, rest, hc, hkind⟩ := stringify_beginning a
  obtain ⟨d, others, hd, hkind'⟩ := stringify_beginning b
  rw [hc, hd] at h
  rw [← hkind, ← hkind', (List.cons.inj h).1]

theorem stringify_ne_closing {value : Json} {c : UInt16} {s t : List UInt16} (hc : beginning c = 6) :
    stringify numberText value ++ s ≠ c :: t := by
  obtain ⟨d, rest, hd, hkind⟩ := stringify_beginning value
  rw [hd]
  intro h
  rw [(List.cons.inj h).1, hc] at hkind
  cases value <;> cases hkind

-- What stands behind the first element of a list: nothing, or a comma and the others.
def afterFirst (more : List UInt16) : List Json → List UInt16
  | [] => []
  | _ :: _ => 0x2C :: more

def afterMember (more : List UInt16) : List (JsString × Json) → List UInt16
  | [] => []
  | _ :: _ => 0x2C :: more

theorem items_cons (value : Json) (rest : List Json) (s : List UInt16) :
    stringify.items numberText (value :: rest) ++ s =
      stringify numberText value ++ (afterFirst (stringify.items numberText rest) rest ++ s) := by
  cases rest <;> simp [stringify.items, afterFirst]

theorem members_cons (name : JsString) (value : Json) (rest : List (JsString × Json)) (s : List UInt16) :
    stringify.members numberText ((name, value) :: rest) ++ s =
      quote name ++ (0x3A :: (stringify numberText value ++
        (afterMember (stringify.members numberText rest) rest ++ s))) := by
  cases rest <;> simp [stringify.members, afterMember]

theorem delimited_cons {c : UInt16} (hc : c ∉ numberAlphabet) (s : List UInt16) : Delimited (c :: s) := by
  intro d hd
  simp only [List.head?_cons, Option.mem_def, Option.some.injEq] at hd
  rw [← hd]
  exact hc

theorem delimited_afterFirst {more s : List UInt16} {c : UInt16} (hc : c ∉ numberAlphabet) (rest : List Json) :
    Delimited (afterFirst more rest ++ c :: s) := by
  cases rest with
  | nil => exact delimited_cons hc s
  | cons _ _ => exact delimited_cons (by decide) _

theorem delimited_afterMember {more s : List UInt16} {c : UInt16} (hc : c ∉ numberAlphabet)
    (rest : List (JsString × Json)) : Delimited (afterMember more rest ++ c :: s) := by
  cases rest with
  | nil => exact delimited_cons hc s
  | cons _ _ => exact delimited_cons (by decide) _

mutual

-- The text of a value tells the value, whatever follows it.
theorem stringify_append_inj (a b : Json) {s t : List UInt16} (hs : Delimited s) (ht : Delimited t)
    (h : stringify numberText a ++ s = stringify numberText b ++ t) : a = b ∧ s = t := by
  have hkind := kindOf_eq h
  match a, b, hkind with
  | .null, .null, _ => exact ⟨rfl, by simpa [stringify] using h⟩
  | .bool first, .bool second, _ =>
      cases first <;> cases second <;> simp [stringify, JsString.ofString, JsString.encodeChar] at h ⊢
      · exact h
      · exact h
  | .num m, .num n, _ =>
      obtain ⟨rfl, hst⟩ := numberUnits_append_inj hs ht h
      exact ⟨rfl, hst⟩
  | .str first, .str second, _ =>
      obtain ⟨rfl, hst⟩ := quote_append_inj h
      exact ⟨rfl, hst⟩
  | .arr first, .arr second, _ =>
      simp only [stringify, List.cons_append, List.append_assoc, List.nil_append, List.cons.injEq, true_and] at h
      obtain ⟨rfl, hst⟩ := items_append_inj first second h
      exact ⟨rfl, hst⟩
  | .obj first, .obj second, _ =>
      simp only [stringify, List.cons_append, List.append_assoc, List.nil_append, List.cons.injEq, true_and] at h
      obtain ⟨rfl, hst⟩ := members_append_inj first second h
      exact ⟨rfl, hst⟩

theorem items_append_inj (first second : List Json) {s t : List UInt16}
    (h : stringify.items numberText first ++ 0x5D :: s = stringify.items numberText second ++ 0x5D :: t) :
    first = second ∧ s = t := by
  match first, second with
  | [], [] => exact ⟨rfl, by simpa [stringify.items] using h⟩
  | [], value :: rest =>
      rw [items_cons] at h
      exact absurd h.symm (stringify_ne_closing (by decide))
  | value :: rest, [] =>
      rw [items_cons] at h
      exact absurd h (stringify_ne_closing (by decide))
  | value :: rest, other :: others =>
      rw [items_cons, items_cons] at h
      obtain ⟨rfl, hrest⟩ := stringify_append_inj value other (delimited_afterFirst (by decide) rest)
        (delimited_afterFirst (by decide) others) h
      match rest, others with
      | [], [] => exact ⟨rfl, by simpa [afterFirst] using hrest⟩
      | [], _ :: _ => simp [afterFirst] at hrest
      | _ :: _, [] => simp [afterFirst] at hrest
      | x :: xs, y :: ys =>
          simp only [afterFirst, List.cons_append, List.cons.injEq, true_and] at hrest
          obtain ⟨hsame, hst⟩ := items_append_inj (x :: xs) (y :: ys) hrest
          exact ⟨by rw [hsame], hst⟩

theorem members_append_inj (first second : List (JsString × Json)) {s t : List UInt16}
    (h : stringify.members numberText first ++ 0x7D :: s = stringify.members numberText second ++ 0x7D :: t) :
    first = second ∧ s = t := by
  match first, second with
  | [], [] => exact ⟨rfl, by simpa [stringify.members] using h⟩
  | [], (name, value) :: rest =>
      rw [members_cons] at h
      simp [stringify.members, quote] at h
  | (name, value) :: rest, [] =>
      rw [members_cons] at h
      simp [stringify.members, quote] at h
  | (name, value) :: rest, (otherName, other) :: others =>
      rw [members_cons, members_cons] at h
      obtain ⟨rfl, hvalue⟩ := quote_append_inj h
      obtain ⟨rfl, hrest⟩ := stringify_append_inj value other (delimited_afterMember (by decide) rest)
        (delimited_afterMember (by decide) others) (List.cons.inj hvalue).2
      match rest, others with
      | [], [] => exact ⟨rfl, by simpa [afterMember] using hrest⟩
      | [], _ :: _ => simp [afterMember] at hrest
      | _ :: _, [] => simp [afterMember] at hrest
      | x :: xs, y :: ys =>
          simp only [afterMember, List.cons_append, List.cons.injEq, true_and] at hrest
          obtain ⟨hsame, hst⟩ := members_append_inj (x :: xs) (y :: ys) hrest
          exact ⟨by rw [hsame], hst⟩

end

-- RFC 8785: members sorted, then the text of JSON.
def jcs (value : Json) : JsString := ⟨stringify numberText value.canon⟩

theorem jcs_eq_iff (a b : Json) : jcs a = jcs b ↔ a.canon = b.canon := by
  constructor
  · intro h
    have hunits : stringify numberText a.canon ++ [] = stringify numberText b.canon ++ [] := by
      rw [List.append_nil, List.append_nil]
      exact congrArg JsString.units h
    exact (stringify_append_inj _ _ (by simp [Delimited]) (by simp [Delimited]) hunits).1
  · intro h
    rw [jcs, h, jcs]

end AuditableMcp.Reference
