import AuditableMcp.Events

-- Validity does not depend on the order in which members are written.
namespace AuditableMcp

namespace Json

-- One value up to the order of members.
def Same (a b : Option Json) : Prop := a.map canon = b.map canon

theorem same_get {a b : Json} (h : a.canon = b.canon) (key : JsString) : Same (a.get key) (b.get key) :=
  get_of_canon_eq h key

-- Two values that are one up to order are one text, number or literal, two arrays, or two objects.
inductive Alike : Option Json → Option Json → Prop where
  | same (value : Option Json) : Alike value value
  | arr (first second : List Json) : Alike (some (.arr first)) (some (.arr second))
  | obj (first second : List (JsString × Json)) (h : (Json.obj first).canon = (Json.obj second).canon) :
      Alike (some (.obj first)) (some (.obj second))

theorem alike_of_same {a b : Option Json} (h : Same a b) : Alike a b := by
  cases a with
  | none =>
      cases b with
      | none => exact .same none
      | some value => simp [Same] at h
  | some first =>
      cases b with
      | none => simp [Same] at h
      | some second =>
          have hcanon : first.canon = second.canon := by simpa [Same] using h
          cases first <;> cases second <;> simp only [canon, reduceCtorEq, Json.bool.injEq, Json.num.injEq,
            Json.str.injEq] at hcanon
          all_goals first
            | exact .same _
            | exact .arr _ _
            | (subst hcanon; exact .same _)
            | exact .obj _ _ (by simpa only [canon] using hcanon)

theorem isText_same {a b : Option Json} (h : Same a b) (text : JsString) : isText a text = isText b text := by
  cases alike_of_same h <;> rfl

theorem isSome_same {a b : Option Json} (h : Same a b) : a.isSome = b.isSome := by
  cases alike_of_same h <;> rfl

theorem mem_keys_canon_members (members : List (JsString × Json)) (name : JsString) :
    name ∈ (canon.members members).map Prod.fst ↔ name ∈ members.map Prod.fst := by
  induction members with
  | nil => simp [canon.members]
  | cons head rest ih =>
      obtain ⟨key, value⟩ := head
      simp only [canon.members, List.map_cons, List.mem_cons, ih]

theorem mem_keys_of_canon_eq {first second : List (JsString × Json)}
    (h : (Json.obj first).canon = (Json.obj second).canon) (name : JsString) :
    name ∈ first.map Prod.fst ↔ name ∈ second.map Prod.fst := by
  have hsorted : (canon.members first).insertionSort byName = (canon.members second).insertionSort byName := by
    simpa [canon] using h
  have hperm (members : List (JsString × Json)) : name ∈ (members.insertionSort byName).map Prod.fst ↔
      name ∈ members.map Prod.fst := ((List.perm_insertionSort byName members).map Prod.fst).mem_iff
  rw [← mem_keys_canon_members first, ← mem_keys_canon_members second, ← hperm (canon.members first),
    ← hperm (canon.members second), hsorted]

end Json

namespace Zod

def Respects (schema : Schema) : Prop :=
  ∀ a b, Json.Same a b → (schema a = none ↔ schema b = none)

-- A schema that looks into no array and no object.
theorem respects_of_shallow {schema : Schema}
    (harr : ∀ first second, schema (some (.arr first)) = schema (some (.arr second)))
    (hobj : ∀ first second, schema (some (.obj first)) = schema (some (.obj second))) : Respects schema := by
  intro a b h
  cases Json.alike_of_same h with
  | same => rfl
  | arr first second => rw [harr first second]
  | obj first second _ => rw [hobj first second]

theorem respects_string : Respects string := respects_of_shallow (fun _ _ => rfl) fun _ _ => rfl

theorem respects_boolean : Respects boolean := respects_of_shallow (fun _ _ => rfl) fun _ _ => rfl

theorem respects_regex (pattern : Pattern UInt16) : Respects (regex pattern) :=
  respects_of_shallow (fun _ _ => rfl) fun _ _ => rfl

theorem respects_nonEmpty : Respects nonEmpty := respects_of_shallow (fun _ _ => rfl) fun _ _ => rfl

theorem respects_safeNat : Respects safeNat := respects_of_shallow (fun _ _ => rfl) fun _ _ => rfl

theorem respects_oneOf (texts : List JsString) : Respects (oneOf texts) :=
  respects_of_shallow (fun _ _ => rfl) fun _ _ => rfl

theorem respects_record : Respects record := respects_of_shallow (fun _ _ => rfl) fun _ _ => rfl

theorem respects_optional {schema : Schema} (h : Respects schema) : Respects (optional schema) := by
  intro a b hab
  cases a with
  | none =>
      cases b with
      | none => rfl
      | some value => simp [Json.Same] at hab
  | some first =>
      cases b with
      | none => simp [Json.Same] at hab
      | some second => exact h _ _ hab

theorem strictObject_none_iff {fields : List Field} {members : List (JsString × Json)} :
    strictObject fields (some (.obj members)) = none ↔
      (∀ field ∈ fields, field.schema (Json.get (.obj members) field.name) = none) ∧
        ∀ name ∈ members.map Prod.fst, name ∈ fields.map Field.name := by
  have hissues : fields.findSome? (fieldIssue (.obj members)) = none ↔
      ∀ field ∈ fields, field.schema (Json.get (.obj members) field.name) = none := by
    rw [List.findSome?_eq_none_iff]
    simp [fieldIssue]
  rw [← hissues]
  cases hf : fields.findSome? (fieldIssue (.obj members)) with
  | some issue => simp [strictObject, hf]
  | none =>
      cases hk : (members.map Prod.fst).filter fun name => name ∉ fields.map Field.name with
      | nil =>
          simp only [strictObject, hf, hk, true_and, true_iff]
          rw [List.filter_eq_nil_iff] at hk
          simpa using hk
      | cons name names =>
          have hname : name ∈ (members.map Prod.fst).filter fun name => name ∉ fields.map Field.name := by
            rw [hk]
            exact List.mem_cons_self
          rw [List.mem_filter] at hname
          simp only [strictObject, hf, hk, reduceCtorEq, true_and, false_iff]
          intro hall
          exact absurd (hall name hname.1) (by simpa using hname.2)

theorem respects_strictObject {fields : List Field} (h : ∀ field ∈ fields, Respects field.schema) :
    Respects (strictObject fields) := by
  intro a b hab
  cases Json.alike_of_same hab with
  | same => rfl
  | arr first second => rfl
  | obj first second hcanon =>
      rw [strictObject_none_iff, strictObject_none_iff]
      refine and_congr ?_ ?_
      · exact forall₂_congr fun field hfield => h field hfield _ _ (Json.same_get hcanon field.name)
      · exact forall_congr' fun name => by rw [Json.mem_keys_of_canon_eq hcanon]

theorem respects_refine {schema : Schema} {holds : Json → Bool} {message : JsString} {path : List JsString}
    (h : Respects schema) (hholds : ∀ a b : Json, a.canon = b.canon → holds a = holds b) :
    Respects (refine schema holds message path) := by
  intro a b hab
  cases a with
  | none =>
      cases b with
      | none => rfl
      | some value => simp [Json.Same] at hab
  | some first =>
      cases b with
      | none => simp [Json.Same] at hab
      | some second =>
          have hcanon : first.canon = second.canon := by simpa [Json.Same] using hab
          rw [refine_eq_none, refine_eq_none, h _ _ hab, hholds first second hcanon]

end Zod

open Zod

theorem respects_targetResource : Respects targetResourceSchema := by
  refine respects_strictObject fun field hfield => ?_
  simp only [List.mem_cons, List.not_mem_nil, or_false] at hfield
  rcases hfield with rfl | rfl | rfl
  · exact respects_nonEmpty
  · exact respects_nonEmpty
  · exact respects_optional respects_string

theorem respects_auditEventField {field : Field} (h : field ∈ auditEventFields) : Respects field.schema := by
  simp only [auditEventFields, List.mem_cons, List.not_mem_nil, or_false] at h
  rcases h with rfl | rfl | rfl | rfl | rfl | rfl | rfl | rfl | rfl | rfl | rfl | rfl | rfl
  · exact respects_regex _
  · exact respects_optional respects_string
  · exact respects_nonEmpty
  · exact respects_boolean
  · exact respects_boolean
  · exact respects_targetResource
  · exact respects_oneOf _
  · exact respects_optional (respects_oneOf _)
  · exact respects_optional respects_record
  · exact respects_optional (respects_regex _)
  · exact respects_optional respects_safeNat
  · exact respects_optional respects_nonEmpty
  · exact respects_optional (respects_regex _)

theorem level2Together_canon {a b : Json} (h : a.canon = b.canon) : level2Together a = level2Together b := by
  have h1 := Json.isSome_same (Json.same_get h Fields.SIGNER_SEQ)
  have h2 := Json.isSome_same (Json.same_get h Fields.KEY_ID)
  have h3 := Json.isSome_same (Json.same_get h Fields.SIGNATURE)
  simp only [level2Together, List.filter_cons, h1, h2, h3]
  cases (b.get Fields.SIGNER_SEQ).isSome <;> cases (b.get Fields.KEY_ID).isSome <;>
    cases (b.get Fields.SIGNATURE).isSome <;> rfl

theorem abortedHasReason_canon {a b : Json} (h : a.canon = b.canon) :
    abortedHasReason a = abortedHasReason b := by
  simp only [abortedHasReason, Json.isText_same (Json.same_get h Fields.OUTCOME),
    Json.isSome_same (Json.same_get h Fields.REASON)]

theorem respects_auditEvent : Respects auditEventSchema := by
  refine respects_refine (respects_refine (respects_strictObject fun field hfield => ?_)
    fun _ _ => abortedHasReason_canon) fun _ _ => level2Together_canon
  simp only [currentEventFields, List.cons_append, List.nil_append, List.mem_cons, List.mem_append,
    List.not_mem_nil, or_false] at hfield
  rcases hfield with rfl | rfl | rfl | hfield | rfl
  · exact respects_oneOf _
  · exact respects_regex _
  · exact respects_regex _
  · exact respects_auditEventField hfield
  · exact respects_optional (respects_regex _)

end AuditableMcp
