import MemberSynthesis.Intake.Schema
import MemberSynthesis.Proofs.Schema.WellMade

/-!
# Schemas without a fault

The invariants of a schema are four tests of its lists: the coding fields end with the implicit
ones, one of them is computed, no two share a name, and the last comparable field is the name. None
of the tests looks at the fields that the type has of its own, and none says which field is the
computed one.

**What they amount to together is how the schema is composed** (`Schema.IsComposed`): own fields,
all of them writable and with names of their own, and behind them the implicit ones. That no own
field is computed follows only from the first two tests, since the count is used up by the identity;
and that none is called like the identity only from the first and the third. Whatever is written
from a schema relies on this, and `fault?_eq_none_iff_isComposed` says that nothing else gets
through.

* From left to right, a schema that passes the tests has own fields, and the equivalence names them.
* From right to left, every schema that is composed so passes, whatever the own fields are
  otherwise. In particular their types and names are *not* tested here: that they are spelled right
  is a property of schemas that come from a directive (`Schema.WellMade`).
* A schema that comes as a document passes the intake just when its parts do and it is composed so,
  which makes the tests the only thing that the intake adds to the parts.
-/

set_option autoImplicit false

namespace MemberSynthesis

namespace Schema

/-- The schema is composed of `own` fields of the type and the implicit ones. The names of the
latter are spelt out, so that the condition reads without a look at the table of implicit fields. -/
structure IsComposed (schema : Schema) (own : List Field) : Prop where
  fields : schema.codingFields = own ++ Field.implicit
  writable : ∀ field ∈ own, field.readOnly = false
  distinct : (own.map Field.name).Nodup
  apart : ∀ field ∈ own, field.name ∉
    (["id", "publicId", "name", "createdAt", "updatedAt", "deletedAt"] : List Text)
  compares : schema.comparableFields ≠ []
  compared : schema.comparableFields.getLast? = some "name"

variable {schema : Schema} {own : List Field}

/-- What the four tests find, as four facts about the lists. They are made in an order, but a schema
without a fault passes them all. -/
theorem tests_of_fault? (h : schema.fault? = none) :
    Field.implicit <:+ schema.codingFields ∧ schema.codingFields.countP Field.readOnly = 1 ∧
      schema.codingNames.Nodup ∧ schema.comparableFields.getLast? = some comparedName := by
  unfold fault? at h
  split at h
  · cases h
  rename_i hsuffix
  split at h
  · cases h
  rename_i hcount
  split at h
  · cases h
  rename_i hdistinct
  split at h
  · cases h
  rename_i hcompared
  exact ⟨List.isSuffixOf_iff_suffix.1 (not_not.1 hsuffix), not_not.1 hcount, not_not.1 hdistinct,
    not_not.1 hcompared⟩

/-- The identity is the computed field that is counted, so that a count of one leaves none for the
own fields. This is how two tests together say what neither does. -/
theorem countP_readOnly_append_implicit :
    (own ++ Field.implicit).countP Field.readOnly = 1 ↔ ∀ field ∈ own, field.readOnly = false := by
  have himplicit : Field.implicit.countP Field.readOnly = 1 := by decide
  rw [List.countP_append, himplicit, Nat.add_eq_right, List.countP_eq_zero]
  simp only [Bool.not_eq_true]

theorem isComposed_of_fault? (h : schema.fault? = none) : ∃ own, schema.IsComposed own := by
  obtain ⟨⟨own, hfields⟩, hcount, hdistinct, hcompared⟩ := tests_of_fault? h
  rw [← hfields, countP_readOnly_append_implicit] at hcount
  rw [codingNames, ← hfields, Directive.nodup_names_iff] at hdistinct
  refine ⟨own, hfields.symm, hcount, hdistinct.1, hdistinct.2, ?_, hcompared⟩
  intro hnil
  rw [hnil] at hcompared
  cases hcompared

namespace IsComposed

theorem fault?_eq_none (h : schema.IsComposed own) : schema.fault? = none := by
  obtain ⟨names, hnames⟩ := List.getLast?_eq_some_iff.1 h.compared
  refine Schema.fault?_eq_none h.fields h.writable ?_ hnames
  rw [codingNames, h.fields, Directive.nodup_names_iff]
  exact ⟨h.distinct, h.apart⟩

/-- Of the implicit fields the identity alone is computed. -/
theorem filter_readOnly (h : schema.IsComposed own) :
    schema.codingFields.filter Field.readOnly = [Field.identity] := by
  have hown : own.filter Field.readOnly = [] :=
    List.filter_eq_nil_iff.2 fun field hfield => by simp [h.writable field hfield]
  rw [h.fields, List.filter_append, hown]
  rfl

theorem writable_eq (h : schema.IsComposed own) : schema.writable = own ++ Field.implicit.tail :=
  writable_eq_append h.fields h.writable

/-- No field that is read in is called like the identity. -/
theorem name_ne_of_mem_writable (h : schema.IsComposed own) {field : Field}
    (hfield : field ∈ schema.writable) : field.name ≠ "id" := by
  rw [h.writable_eq, List.mem_append] at hfield
  rcases hfield with hfield | hfield
  · intro hname
    exact h.apart field hfield (hname ▸ List.mem_cons_self)
  · revert field
    decide

end IsComposed

/-- A schema passes the intake if its parts do and it has no fault. The tests are made on the parts
that were taken in, and only when all of them were. -/
theorem ofDatum_eq_ok_iff {datum : Datum} :
    ofDatum datum = .ok schema ↔ partsOfDatum datum = .ok schema ∧ schema.fault? = none := by
  rw [ofDatum, Outcome.bind_eq_ok_iff]
  constructor
  · rintro ⟨found, hparts, hchecked⟩
    split at hchecked
    · rename_i hfault
      cases hchecked
      exact ⟨hparts, hfault⟩
    · cases hchecked
  · rintro ⟨hparts, hfault⟩
    refine ⟨schema, hparts, ?_⟩
    rw [hfault]
    rfl

/-- **A schema has no fault just when it is composed of own fields and the implicit ones**, and only
such schemas pass the intake. The identity is then the only computed field, all the other fields are
writable, and these are the own fields and the five implicit ones behind the identity. -/
theorem fault?_eq_none_iff_isComposed (schema : Schema) :
    (schema.fault? = none ↔ ∃ own, schema.IsComposed own) ∧
    (∀ datum, ofDatum datum = .ok schema ↔
      partsOfDatum datum = .ok schema ∧ ∃ own, schema.IsComposed own) ∧
    ∀ own, schema.IsComposed own →
      schema.codingFields.filter Field.readOnly = [Field.identity] ∧
      schema.writable = own ++
        [⟨"publicId", "String", false, false⟩, ⟨"name", "String", false, false⟩,
          ⟨"createdAt", "Date", false, false⟩, ⟨"updatedAt", "Date", false, false⟩,
          ⟨"deletedAt", "Date", true, false⟩] ∧
      schema.writable.length + 1 = schema.codingFields.length ∧
      ∀ field ∈ schema.writable, field.name ≠ "id" := by
  have hcomposed : schema.fault? = none ↔ ∃ own, schema.IsComposed own :=
    ⟨isComposed_of_fault?, fun ⟨_, h⟩ => h.fault?_eq_none⟩
  refine ⟨hcomposed, fun datum => ?_, fun own h => ?_⟩
  · rw [ofDatum_eq_ok_iff, hcomposed]
  · refine ⟨h.filter_readOnly, h.writable_eq, ?_,
      fun field hfield => h.name_ne_of_mem_writable hfield⟩
    rw [h.writable_eq, h.fields, List.length_append, List.length_append]
    rfl

/-- A schema with a field of its own. -/
theorem isComposed_note :
    let schema : Schema := ⟨"Note", .structType, ["body", "name"],
      ⟨"body", "[String]", true, false⟩ :: Field.implicit, []⟩
    schema.IsComposed [⟨"body", "[String]", true, false⟩] ∧ schema.fault? = none ∧
      schema.writable.length + 1 = 7 := by
  intro schema
  have hcomposed : schema.IsComposed [⟨"body", "[String]", true, false⟩] :=
    ⟨rfl, by decide, by decide, by decide, by decide, by decide⟩
  obtain ⟨hfault, _, hparts⟩ := fault?_eq_none_iff_isComposed schema
  exact ⟨hcomposed, hfault.2 ⟨_, hcomposed⟩, (hparts _ hcomposed).2.2.1⟩

end Schema

end MemberSynthesis
