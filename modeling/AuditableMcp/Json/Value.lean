import Mathlib.Data.Rat.Defs
import Mathlib.Data.List.Sort
import Mathlib.Algebra.Order.Ring.Unbundled.Rat

namespace AuditableMcp

-- A JavaScript string: a sequence of UTF-16 code units, well formed or not.
structure JsString where
  units : List UInt16
deriving DecidableEq, Repr

namespace JsString

def encodeChar (c : Char) : List UInt16 :=
  if c.val < 0x10000 then [c.val.toUInt16]
  else [(0xD800 + (c.val - 0x10000) / 0x400).toUInt16, (0xDC00 + (c.val - 0x10000) % 0x400).toUInt16]

def ofString (s : String) : JsString := ⟨s.toList.flatMap encodeChar⟩

instance : Coe String JsString := ⟨ofString⟩

instance : Append JsString := ⟨fun a b => ⟨a.units ++ b.units⟩⟩

def length (s : JsString) : Nat := s.units.length

def isHighSurrogate (c : UInt16) : Bool := 0xD800 ≤ c && c ≤ 0xDBFF

def isLowSurrogate (c : UInt16) : Bool := 0xDC00 ≤ c && c ≤ 0xDFFF

-- The order of member names: code unit by code unit.
def unitsLe : List UInt16 → List UInt16 → Bool
  | [], _ => true
  | _ :: _, [] => false
  | a :: as, b :: bs => a < b || (a = b && unitsLe as bs)

theorem unitsLe_refl (units : List UInt16) : unitsLe units units = true := by
  induction units with
  | nil => rfl
  | cons a as ih => simp [unitsLe, ih]

theorem unitsLe_total (a b : List UInt16) : unitsLe a b = true ∨ unitsLe b a = true := by
  induction a generalizing b with
  | nil => exact Or.inl rfl
  | cons x xs ih =>
      cases b with
      | nil => exact Or.inr rfl
      | cons y ys =>
          simp only [unitsLe, Bool.or_eq_true, Bool.and_eq_true, decide_eq_true_eq]
          have hxy : x < y ∨ x = y ∨ y < x := by
            simp only [UInt16.lt_iff_toNat_lt, ← UInt16.toNat_inj]
            omega
          rcases hxy with h | rfl | h
          · exact Or.inl (Or.inl h)
          · exact (ih ys).imp (fun h => Or.inr ⟨rfl, h⟩) fun h => Or.inr ⟨rfl, h⟩
          · exact Or.inr (Or.inl h)

theorem unitsLe_antisymm {a b : List UInt16} (hab : unitsLe a b = true) (hba : unitsLe b a = true) :
    a = b := by
  induction a generalizing b with
  | nil =>
      cases b with
      | nil => rfl
      | cons y ys => cases hba
  | cons x xs ih =>
      cases b with
      | nil => cases hab
      | cons y ys =>
          simp only [unitsLe, Bool.or_eq_true, Bool.and_eq_true, decide_eq_true_eq,
            UInt16.lt_iff_toNat_lt, ← UInt16.toNat_inj] at hab hba
          have hxy : x.toNat = y.toNat := by omega
          rw [ih (hab.resolve_left (by omega)).2 (hba.resolve_left (by omega)).2, UInt16.toNat_inj.mp hxy]

theorem unitsLe_trans {a b c : List UInt16} (hab : unitsLe a b = true) (hbc : unitsLe b c = true) :
    unitsLe a c = true := by
  induction a generalizing b c with
  | nil => rfl
  | cons x xs ih =>
      cases b with
      | nil => cases hab
      | cons y ys =>
          cases c with
          | nil => cases hbc
          | cons z zs =>
              simp only [unitsLe, Bool.or_eq_true, Bool.and_eq_true, decide_eq_true_eq,
                UInt16.lt_iff_toNat_lt, ← UInt16.toNat_inj] at hab hbc ⊢
              rcases hab with hlt | ⟨hxy, hab⟩
              · exact Or.inl (by omega)
              · rcases hbc with hlt | ⟨hyz, hbc⟩
                · exact Or.inl (by omega)
                · exact Or.inr ⟨hxy.trans hyz, ih hab hbc⟩

end JsString

-- A JavaScript number. Every finite double is a rational, and the two zeros, which
-- no comparison or serialization here tells apart, are one.
inductive JsNum where
  | nan
  | posInf
  | negInf
  | fin (value : ℚ)
deriving DecidableEq

namespace JsNum

def ofNat (n : Nat) : JsNum := .fin n

def isFinite : JsNum → Bool
  | .fin _ => true
  | _ => false

def isInteger : JsNum → Bool
  | .fin value => value.den = 1
  | _ => false

-- The `<` of two numbers: false where either is NaN.
def lt : JsNum → JsNum → Bool
  | .nan, _ => false
  | _, .nan => false
  | .negInf, .negInf => false
  | .negInf, _ => true
  | _, .negInf => false
  | .posInf, _ => false
  | .fin _, .posInf => true
  | .fin a, .fin b => a < b

-- `n + 1`. Exact below 2^53, where every value that is added to lies.
def succ : JsNum → JsNum
  | .fin value => .fin (value + 1)
  | n => n

-- `Math.max`
def max : JsNum → JsNum → JsNum
  | .nan, _ => .nan
  | _, .nan => .nan
  | a, b => if lt a b then b else a

end JsNum

-- A JSON value as it stands in memory. A member that is absent is `none` of an
-- `Option Json`, which is how `undefined` reads.
inductive Json where
  | null
  | bool (value : Bool)
  | num (value : JsNum)
  | str (value : JsString)
  | arr (items : List Json)
  | obj (members : List (JsString × Json))

namespace Json

def lookup : List (JsString × Json) → JsString → Option Json
  | [], _ => none
  | (k, v) :: rest, key => if k = key then some v else lookup rest key

-- `value[key]` for a value that is not null. No field name of the contracts names a
-- member of a prototype, so only an object's own members answer.
def get : Json → JsString → Option Json
  | .obj members, key => lookup members key
  | _, _ => none

-- `typeof value === 'object'` and not null
def isObject : Json → Bool
  | .arr _ => true
  | .obj _ => true
  | _ => false

def isNull : Json → Bool
  | .null => true
  | _ => false

-- `value === 'text'`
def isText (value : Option Json) (text : JsString) : Bool :=
  match value with
  | some (.str s) => s = text
  | _ => false

theorem isText_eq_true {value : Option Json} {text : JsString} : isText value text = true ↔ value = some (.str text) := by
  unfold isText
  split
  · simp
  · rename_i h
    simp only [Bool.false_eq_true, false_iff]
    exact fun he => h text he

-- `===` where at least one side is not an object. Two objects read from storage are
-- two references, which are never equal.
def strictEq : Option Json → Option Json → Bool
  | none, none => true
  | some .null, some .null => true
  | some (.bool a), some (.bool b) => a = b
  | some (.num .nan), some (.num .nan) => false
  | some (.num a), some (.num b) => a = b
  | some (.str a), some (.str b) => a = b
  | _, _ => false

def byName (a b : JsString × Json) : Prop := JsString.unitsLe a.1.units b.1.units = true

instance : DecidableRel byName := fun _ _ => inferInstanceAs (Decidable (_ = true))

-- One spelling for all values that differ only in the order of their members.
def canon : Json → Json
  | .arr elements => .arr (items elements)
  | .obj entries => .obj ((members entries).insertionSort byName)
  | value => value
where
  items : List Json → List Json
    | [] => []
    | item :: rest => item.canon :: items rest
  members : List (JsString × Json) → List (JsString × Json)
    | [] => []
    | (name, value) :: rest => (name, value.canon) :: members rest

theorem lookup_orderedInsert (entry : JsString × Json) (members : List (JsString × Json)) (key : JsString) :
    lookup (members.orderedInsert byName entry) key =
      if entry.1 = key then some entry.2 else lookup members key := by
  induction members with
  | nil => rfl
  | cons head rest ih =>
      by_cases hle : byName entry head
      · simp [List.orderedInsert, hle, lookup]
      · have hne : head.1 ≠ entry.1 := by
          intro he
          exact hle (by simp [byName, he, JsString.unitsLe_refl])
        simp only [List.orderedInsert, hle, ite_false, lookup, ih]
        by_cases hk : entry.1 = key
        · subst hk
          simp [hne]
        · simp [hk]

theorem lookup_canon_members (members : List (JsString × Json)) (key : JsString) :
    lookup (canon.members members) key = (lookup members key).map canon := by
  induction members with
  | nil => rfl
  | cons head rest ih =>
      obtain ⟨name, value⟩ := head
      by_cases hk : name = key <;> simp [canon.members, lookup, hk, ih]

theorem lookup_insertionSort (members : List (JsString × Json)) (key : JsString) :
    lookup (members.insertionSort byName) key = lookup members key := by
  induction members with
  | nil => rfl
  | cons head rest ih =>
      rw [List.insertionSort_cons, lookup_orderedInsert, ih]
      rfl

-- Reading a member commutes with the canonical spelling.
theorem get_canon (value : Json) (key : JsString) : value.canon.get key = (value.get key).map canon := by
  cases value with
  | obj members => simp only [canon, get, lookup_insertionSort, lookup_canon_members]
  | null | bool _ | num _ | str _ | arr _ => rfl

theorem get_of_canon_eq {a b : Json} (h : a.canon = b.canon) (key : JsString) :
    (a.get key).map canon = (b.get key).map canon := by
  rw [← get_canon, ← get_canon, h]

theorem canon_eq_str {value : Json} {s : JsString} (h : value.canon = .str s) : value = .str s := by
  cases value <;> simp_all [canon]

-- Two values with one canonical spelling agree on every member that holds a string.
theorem get_str_of_canon_eq {a b : Json} (h : a.canon = b.canon) (key : JsString) (s : JsString)
    (ha : a.get key = some (.str s)) : b.get key = some (.str s) := by
  have hm := get_of_canon_eq h key
  rw [ha] at hm
  cases hb : b.get key with
  | none => simp [hb] at hm
  | some value =>
      have hv : value.canon = .str s := by simpa [hb, canon] using hm.symm
      rw [canon_eq_str hv]

end Json

end AuditableMcp
