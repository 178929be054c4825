import AuditableMcp.Canonical
import AuditableMcp.Library.Pattern

-- The part of the schema library the contracts are written in: a schema maps a
-- value, or its absence, to the first issue it raises.
namespace AuditableMcp.Zod

inductive IssueCode where
  | invalidType
  | invalidValue
  | invalidFormat
  | tooSmall
  | tooBig
  | unrecognizedKeys (keys : List JsString)
  | invalidKey
  | custom (message : JsString)
deriving DecidableEq

structure Issue where
  path : List JsString
  code : IssueCode
deriving DecidableEq

abbrev Schema := Option Json → Option Issue

def unknown : Schema := fun _ => none

def string : Schema
  | some (.str _) => none
  | _ => some ⟨[], .invalidType⟩

def boolean : Schema
  | some (.bool _) => none
  | _ => some ⟨[], .invalidType⟩

def regex (pattern : Pattern UInt16) : Schema
  | some (.str s) => if pattern.test s.units then none else some ⟨[], .invalidFormat⟩
  | _ => some ⟨[], .invalidType⟩

def nonEmpty : Schema
  | some (.str s) => if s.length = 0 then some ⟨[], .tooSmall⟩ else none
  | _ => some ⟨[], .invalidType⟩

-- `z.int().min(0).max(MAX_SAFE_INTEGER)`
def safeNat : Schema
  | some (.num (.fin value)) =>
      if value.den ≠ 1 then some ⟨[], .invalidType⟩
      else if value < 0 then some ⟨[], .tooSmall⟩
      else if MAX_SAFE_INTEGER < value then some ⟨[], .tooBig⟩
      else none
  | _ => some ⟨[], .invalidType⟩

-- `z.literal` and `z.enum` of strings
def oneOf (texts : List JsString) : Schema
  | some (.str s) => if s ∈ texts then none else some ⟨[], .invalidValue⟩
  | _ => some ⟨[], .invalidValue⟩

-- `z.record(z.string(), z.unknown())`
def record : Schema
  | some (.obj _) => none
  | _ => some ⟨[], .invalidType⟩

-- The name under which an assignment sets no member.
def PROTO : JsString := "__proto__"

-- `z.record(key, value)`, which passes a member of that name over.
def memberIssue (key value : Schema) (member : JsString × Json) : Option Issue :=
  if member.1 = PROTO then none
  else if (key (some (.str member.1))).isSome then some ⟨[member.1], .invalidKey⟩
  else (value (some member.2)).map fun issue => { issue with path := member.1 :: issue.path }

def recordOf (key value : Schema) : Schema
  | some (.obj members) => members.findSome? (memberIssue key value)
  | _ => some ⟨[], .invalidType⟩

def optional (schema : Schema) : Schema
  | none => none
  | value => schema value

structure Field where
  name : JsString
  schema : Schema

def fieldIssue (value : Json) (field : Field) : Option Issue :=
  (field.schema (value.get field.name)).map fun issue => { issue with path := field.name :: issue.path }

def strictObject (fields : List Field) : Schema
  | some (.obj members) =>
      match fields.findSome? (fieldIssue (.obj members)) with
      | some issue => some issue
      | none =>
          match (members.map Prod.fst).filter fun name => name ∉ fields.map Field.name with
          | [] => none
          | keys => some ⟨[], .unrecognizedKeys keys⟩
  | _ => some ⟨[], .invalidType⟩

-- A refinement runs on a value its schema found no fault with.
def refine (schema : Schema) (holds : Json → Bool) (message : JsString) (path : List JsString) : Schema :=
  fun value =>
    match schema value with
    | some issue => some issue
    | none =>
        match value with
        | some v => if holds v then none else some ⟨path, .custom message⟩
        | none => none

theorem refine_eq_none {schema : Schema} {holds : Json → Bool} {message : JsString} {path : List JsString}
    {value : Json} :
    refine schema holds message path (some value) = none ↔ schema (some value) = none ∧ holds value = true := by
  unfold refine
  cases h : schema (some value) <;> simp

-- A strict object is an object whose listed members pass, and which has no other.
theorem strictObject_eq_none {fields : List Field} {value : Option Json}
    (h : strictObject fields value = none) :
    ∃ members, value = some (.obj members) ∧
      ∀ field ∈ fields, field.schema (Json.get (.obj members) field.name) = none := by
  unfold strictObject at h
  split at h
  · rename_i members
    refine ⟨members, rfl, ?_⟩
    split at h
    · cases h
    · rename_i hf
      intro field hm
      have := List.findSome?_eq_none_iff.mp hf field hm
      simpa [fieldIssue] using this
  · cases h

theorem recordOf_eq_none {key value : Schema} {members : List (JsString × Json)} :
    recordOf key value (some (.obj members)) = none ↔
      ∀ member ∈ members, member.1 ≠ PROTO → key (some (.str member.1)) = none ∧ value (some member.2) = none := by
  unfold recordOf
  rw [List.findSome?_eq_none_iff]
  refine forall₂_congr fun member _ => ?_
  unfold memberIssue
  by_cases hproto : member.1 = PROTO
  · simp [hproto]
  · cases hkey : key (some (.str member.1)) <;> simp [hproto]

theorem regex_eq_none {pattern : Pattern UInt16} {value : Option Json}
    (h : regex pattern value = none) : ∃ s, value = some (.str s) ∧ pattern.test s.units = true := by
  unfold regex at h
  split at h
  · rename_i s
    split at h
    · rename_i hm
      exact ⟨s, rfl, hm⟩
    · cases h
  · cases h

theorem oneOf_eq_none {texts : List JsString} {value : Option Json} (h : oneOf texts value = none) :
    ∃ s, value = some (.str s) ∧ s ∈ texts := by
  unfold oneOf at h
  split at h
  · rename_i s
    split at h
    · rename_i hm
      exact ⟨s, rfl, hm⟩
    · cases h
  · cases h

theorem optional_eq_none {schema : Schema} {value : Option Json} (h : optional schema value = none) :
    value = none ∨ ∃ v, value = some v ∧ schema (some v) = none := by
  cases value with
  | none => exact Or.inl rfl
  | some v => exact Or.inr ⟨v, rfl, h⟩

theorem string_eq_none {value : Option Json} (h : string value = none) : ∃ s, value = some (.str s) := by
  unfold string at h
  split at h
  · exact ⟨_, rfl⟩
  · cases h

theorem nonEmpty_eq_none {value : Option Json} (h : nonEmpty value = none) :
    ∃ s, value = some (.str s) ∧ s.length ≠ 0 := by
  unfold nonEmpty at h
  split at h
  · rename_i s
    split at h
    · cases h
    · rename_i hl
      exact ⟨s, rfl, hl⟩
  · cases h

-- What `safeNat` admits is a natural number in the safe range.
theorem safeNat_eq_none {value : Option Json} (h : safeNat value = none) :
    ∃ n : Nat, value = some (.num (.ofNat n)) ∧ (n : ℚ) ≤ MAX_SAFE_INTEGER := by
  unfold safeNat at h
  split at h
  · rename_i q
    split at h
    · cases h
    · rename_i hden
      split at h
      · cases h
      · rename_i hneg
        split at h
        · cases h
        · rename_i hbig
          have hq : q = (q.num.toNat : ℚ) := by
            have hnum : (q.num : ℚ) = q := Rat.coe_int_num_of_den_eq_one (not_not.mp hden)
            have hpos : 0 ≤ q.num := Rat.num_nonneg.mpr (not_lt.mp hneg)
            have : ((q.num.toNat : ℤ) : ℚ) = q := by rw [Int.toNat_of_nonneg hpos, hnum]
            exact_mod_cast this.symm
          refine ⟨q.num.toNat, by rw [JsNum.ofNat, ← hq], ?_⟩
          rw [← hq]
          exact not_lt.mp hbig
  · cases h

end AuditableMcp.Zod
