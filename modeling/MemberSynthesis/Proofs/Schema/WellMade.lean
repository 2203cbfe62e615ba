import MemberSynthesis.Proofs.Directive.Acceptance

/-!
# Schemas that come from a directive

The members of a type rely on more than the checks of a schema say: every coding field is spelled,
no two of them share a name, and the computed one is the identity, first of the implicit fields. A
schema with these properties is **well made** (`Schema.WellMade`), and every schema that the
interpretation of a directive returns is (`wellMade_of_interpret`). What is proved about the
generated code is proved from here on, and not from the directive.

So this is an interface. On the one side stands the interpretation, which is opened once, in the
proof of that theorem; on the other stand fourteen members, whose theorems have `WellMade` for a
hypothesis and use its consequences below: that the writable fields are all but the identity, that
the first of them is there, and that the last one is always the same.

That the names to compare are identifiers is *not* part of it, because it need not hold: a
comparable field may be given by any plain string.
-/

set_option autoImplicit false

namespace MemberSynthesis

namespace Schema

/-- What the generated code relies on. -/
structure WellMade (schema : Schema) : Prop where
  /-- The coding fields are fields that were described, followed by the implicit ones. -/
  described : ∃ own, schema.codingFields = own ++ Field.implicit ∧
    ∀ field ∈ own, field.IsSpelled ∧ field.readOnly = false
  /-- No two coding fields share a name. -/
  distinct : schema.codingNames.Nodup

/-- **A schema that comes from a directive is well made.** Its own fields are those of the
descriptors, which are spelled and writable, and the directive is refused if two names are the
same. -/
theorem wellMade_of_interpret {directive : Attribute} {declaration : Declaration} {schema : Schema}
    (h : Directive.interpret directive declaration = .ok schema) : schema.WellMade := by
  obtain ⟨content, hstated, rfl⟩ := Directive.interpret_eq_ok_iff.1 h
  refine ⟨⟨content.own, rfl, ?_⟩, ?_⟩
  · intro field hfield
    exact Directive.isSpelled_of_described hstated.described field hfield
  · exact Directive.nodup_names_iff.2 ⟨hstated.distinct, hstated.apart⟩

variable {schema : Schema}

theorem isSpelled_of_mem_implicit {field : Field} (h : field ∈ Field.implicit) :
    field.IsSpelled := by
  simp only [Field.implicit, List.mem_cons, List.not_mem_nil, or_false] at h
  rcases h with rfl | rfl | rfl | rfl | rfl | rfl <;> exact ⟨by decide, by decide, by decide⟩

theorem WellMade.isSpelled_of_mem (h : schema.WellMade) {field : Field}
    (hfield : field ∈ schema.codingFields) : field.IsSpelled := by
  obtain ⟨own, hfields, hown⟩ := h.described
  rw [hfields, List.mem_append] at hfield
  rcases hfield with hfield | hfield
  · exact (hown field hfield).1
  · exact isSpelled_of_mem_implicit hfield

/-- Of the implicit fields all but the identity are writable, and so are the own ones. Stated for
any own fields, as it is used before they are known to come from a directive. -/
theorem writable_eq_append {own : List Field}
    (hfields : schema.codingFields = own ++ Field.implicit)
    (hown : ∀ field ∈ own, field.readOnly = false) :
    schema.writable = own ++ Field.implicit.tail := by
  have hkept : own.filter (fun field => !field.readOnly) = own :=
    List.filter_eq_self.2 fun field hfield => by simp [hown field hfield]
  have himplicit : Field.implicit.filter (fun field => !field.readOnly) = Field.implicit.tail := rfl
  rw [writable, hfields, List.filter_append, hkept, himplicit]

/-- The writable fields are all the coding fields but the identity: the own ones, and the implicit
ones behind it. -/
theorem WellMade.exists_writable (h : schema.WellMade) :
    ∃ own, schema.codingFields = own ++ Field.implicit ∧
      schema.writable = own ++ Field.implicit.tail ∧
      ∀ field ∈ own, field.IsSpelled ∧ field.readOnly = false := by
  obtain ⟨own, hfields, hown⟩ := h.described
  exact ⟨own, hfields, writable_eq_append hfields fun field hfield => (hown field hfield).2, hown⟩

theorem mem_codingFields_of_mem_writable {field : Field} (h : field ∈ schema.writable) :
    field ∈ schema.codingFields :=
  List.mem_of_mem_filter h

theorem WellMade.publicId_mem_writable (h : schema.WellMade) :
    ⟨"publicId", "String", false, false⟩ ∈ schema.writable := by
  obtain ⟨own, _, hwritable, _⟩ := h.exists_writable
  rw [hwritable]
  exact List.mem_append_right own List.mem_cons_self

/-- The implicit field that comes last. Parameter lists end with it and without a comma, which is
why it has a name here. -/
def lastField : Field := ⟨"deletedAt", "Date", true, false⟩

theorem WellMade.exists_writable_eq_cons (h : schema.WellMade) :
    ∃ field middle, schema.writable = field :: (middle ++ [lastField]) := by
  obtain ⟨own, _, hwritable, _⟩ := h.exists_writable
  have hlast : Field.implicit.tail = Field.implicit.tail.dropLast ++ [lastField] := rfl
  have hfirst : Field.implicit.tail = ⟨"publicId", "String", false, false⟩ ::
      (Field.implicit.tail.tail.dropLast ++ [lastField]) := rfl
  cases own with
  | nil => exact ⟨_, _, hwritable.trans hfirst⟩
  | cons field own =>
    refine ⟨field, own ++ Field.implicit.tail.dropLast, ?_⟩
    rw [hwritable, List.cons_append, List.append_assoc, ← hlast]

theorem WellMade.isSpelled_of_mem_writable (h : schema.WellMade) {field : Field}
    (hfield : field ∈ schema.writable) : field.IsSpelled :=
  h.isSpelled_of_mem (mem_codingFields_of_mem_writable hfield)

theorem WellMade.nodup_writable (h : schema.WellMade) : (schema.writable.map Field.name).Nodup :=
  h.distinct.sublist (List.filter_sublist.map Field.name)

end Schema

end MemberSynthesis
