import MemberSynthesis.Proofs.Member.Coherence

/-!
# The members determine the schema

Texts of the author's own stand in the generated code with nothing around them that they could not
hold themselves: the name of the type, the types of the fields, the statements. A member cannot be
cut into its parts without knowing where these end. **The members together can**
(`members_eq_iff_of_interpret`), each with what the ones before it have shown.

1. The keys hold nothing but the names of the fields, one in a line, and so tell how many there are.
2. In the decoding initializer that many lines belong to the fields, whatever the statements behind
  them look like; and once its name is known, a field's type is what is left of its line. The header
  says whether the type is a class.
3. The equality compares known fields, so that its length tells how long the name of the type is,
  which stands in it twice.
4. The weaker equality gives away its names when the name of the type is cut off, because a
  condition on identifiers can be read in one way only.

The order of these steps is that of the lemmas below: what one member shows is a hypothesis of the
lemma on the next one. The other four members show nothing new.

The converse is that nothing else of a schema gets into its members (`members_congr`). The kind of
the declaration does so only as being a class or not, and of the text of the statements it is the
lines that are written; so two different directives can well have the same members, and the theorem
says just when.
-/

set_option autoImplicit false

namespace MemberSynthesis

namespace Member

/-! ## What a part of a member says

A line or a header, and what can be told from it alone. In each case an append is taken apart where
the length or the end of one side is known. -/

theorem keyLine_injective : Function.Injective keyLine := fun _ _ h => List.append_cancel_left h

theorem decodingHeader_eq_iff {kind other : DeclarationKind} :
    decodingHeader kind = decodingHeader other ↔ (kind = .classType ↔ other = .classType) := by
  have hne : opened "required init(from decoder: Decoder) throws" ≠
      opened "init(from decoder: Decoder) throws" := by decide
  rw [decodingHeader, decodingHeader]
  by_cases hkind : kind = .classType <;> by_cases hother : other = .classType
  · simp [hkind, hother]
  · simp [hkind, hother, hne]
  · simp [hkind, hother, hne.symm]
  · simp [hkind, hother]

/-- Twice the same name makes headers of the same length only if it is as long as the other. Then
the two names start at the same place and end at the same place. -/
theorem typeName_eq_of_comparisonHeader_eq {operator typeName other : Text}
    (h : comparisonHeader operator typeName = comparisonHeader operator other) :
    typeName = other := by
  have hlength := congrArg List.length h
  simp only [comparisonHeader, opened, List.length_append] at hlength
  simp only [comparisonHeader, opened, List.append_assoc, List.append_cancel_left_eq] at h
  exact (List.append_inj h (by omega)).1

/-- Lines that decode two fields are the same only if the fields are: the name stands at the start,
and with it and the method gone, what is left is the type. -/
theorem eq_of_decodeLine_eq {field other : Field} (hfield : field.IsSpelled)
    (hother : other.IsSpelled)
    (hreadOnly : field.readOnly = other.readOnly) (h : decodeLine field = decodeLine other) :
    field = other := by
  obtain ⟨name, typeName, nullable, readOnly⟩ := field
  obtain ⟨otherName, otherType, otherNullable, otherReadOnly⟩ := other
  -- The name and the method are read from the line, and the type is what is left of it.
  have hread := Transfer.ofDecodeLine?_decodeLine hfield
  rw [h, Transfer.ofDecodeLine?_decodeLine hother] at hread
  cases hread
  cases hreadOnly
  simp only [decodeLine, List.append_assoc, List.append_cancel_left_eq] at h
  obtain rfl := List.append_cancel_right h
  rfl

theorem eq_of_map_decodeLine_eq {fields others : List Field}
    (hfields : ∀ field ∈ fields, field.IsSpelled ∧ field.readOnly = false)
    (hothers : ∀ field ∈ others, field.IsSpelled ∧ field.readOnly = false)
    (h : fields.map decodeLine = others.map decodeLine) : fields = others := by
  induction fields generalizing others with
  | nil => exact (List.map_eq_nil_iff.1 h.symm).symm
  | cons field more ih =>
    cases others with
    | nil => cases h
    | cons other rest =>
      obtain ⟨⟨hspelled, hwritable⟩, hmore⟩ := List.forall_mem_cons.1 hfields
      obtain ⟨⟨hspelled', hwritable'⟩, hrest⟩ := List.forall_mem_cons.1 hothers
      obtain ⟨hline, hlines⟩ := List.cons.inj h
      rw [eq_of_decodeLine_eq hspelled hspelled' (hwritable.trans hwritable'.symm) hline,
        ih hmore hrest hlines]

end Member

namespace Schema

variable {schema other : Schema}

theorem members_eq_iff : schema.members = other.members ↔
    Member.propertiesEqual schema = Member.propertiesEqual other ∧
    Member.equality schema = Member.equality other ∧ Member.hash schema = Member.hash other ∧
    Member.codingKeys schema = Member.codingKeys other ∧
    Member.decodingInit schema = Member.decodingInit other ∧
    Member.encode schema = Member.encode other ∧ Member.emptyInit schema = Member.emptyInit other ∧
    Member.memberwiseInit schema = Member.memberwiseInit other := by
  simp only [members, List.append_cancel_left_eq, List.cons.injEq, and_true]

/-! ## What the members show one after the other -/

/-- The keys show the names of the coding fields, since each line holds one of them and nothing else
that varies. -/
theorem WellMade.codingNames_eq (h : schema.WellMade) (hother : other.WellMade)
    (hkeys : Member.codingKeys schema = Member.codingKeys other) :
    schema.codingNames = other.codingNames := by
  obtain ⟨_, hbody⟩ := Member.eq_of_braced_eq (congrArg Member.text hkeys) (by decide) (by decide)
    h.feed_not_mem_keyLines hother.feed_not_mem_keyLines
  exact List.map_injective_iff.2 Member.keyLine_injective hbody

theorem WellMade.length_writable (h : schema.WellMade) :
    schema.writable.length + 1 = schema.codingNames.length := by
  obtain ⟨own, hfields, hwritable, _⟩ := h.exists_writable
  rw [codingNames, List.length_map, hfields, hwritable, List.length_append, List.length_append]
  rfl

theorem readOnly_of_mem_writable {field : Field} (h : field ∈ schema.writable) :
    field.readOnly = false := by
  have hwritable := (List.mem_filter.1 h).2
  simpa using hwritable

/-- The coding fields are the writable ones with the identity among them, always at the same place,
the sixth from the end. -/
theorem WellMade.codingFields_eq (h : schema.WellMade) (hother : other.WellMade)
    (hwritable : schema.writable = other.writable) : schema.codingFields = other.codingFields := by
  obtain ⟨own, hfields, hown, _⟩ := h.exists_writable
  obtain ⟨own', hfields', hown', _⟩ := hother.exists_writable
  rw [hown, hown'] at hwritable
  rw [hfields, hfields', List.append_cancel_right hwritable]

/-- The decoding initializer shows the fields, the statements and whether the type is a class, once
the names of the coding fields are known. -/
theorem WellMade.eq_of_decodingInit_eq (h : schema.WellMade) (hother : other.WellMade)
    (hnames : schema.codingNames = other.codingNames)
    (hdecoding : Member.decodingInit schema = Member.decodingInit other) :
    schema.codingFields = other.codingFields ∧ schema.initializerLines = other.initializerLines ∧
      (schema.declarationKind = .classType ↔ other.declarationKind = .classType) := by
  obtain ⟨hheader, hbody⟩ := Member.eq_of_braced_eq (congrArg Member.text hdecoding)
    (Member.not_mem_decodingHeader _) (Member.not_mem_decodingHeader _) h.feed_not_mem_decodingLines
    hother.feed_not_mem_decodingLines
  rw [List.append_assoc, List.append_assoc] at hbody
  -- As many lines as there are writable fields belong to them, and the others are the statements.
  have hlength : schema.writable.length = other.writable.length := by
    have hcount := h.length_writable
    rw [hnames, ← hother.length_writable] at hcount
    exact Nat.succ.inj hcount
  obtain ⟨hdecoded, hstatements⟩ := List.append_inj (List.append_cancel_left hbody)
    (by simpa using hlength)
  have hwritable : schema.writable = other.writable :=
    Member.eq_of_map_decodeLine_eq
      (fun _ hfield => ⟨h.isSpelled_of_mem_writable hfield, readOnly_of_mem_writable hfield⟩)
      (fun _ hfield => ⟨hother.isSpelled_of_mem_writable hfield, readOnly_of_mem_writable hfield⟩)
        hdecoded
  exact ⟨h.codingFields_eq hother hwritable, hstatements, Member.decodingHeader_eq_iff.1 hheader⟩

/-- The equality shows the name of the type, once the names of the coding fields are known and with
them the condition. -/
theorem typeName_eq_of_equality_eq (hnames : schema.codingNames = other.codingNames)
    (hequality : Member.equality schema = Member.equality other) :
    schema.typeName = other.typeName := by
  have htext := congrArg Member.text hequality
  rw [Member.equality, Member.equality, hnames] at htext
  exact Member.typeName_eq_of_comparisonHeader_eq (Member.header_eq_of_braced_eq htext)

/-- The weaker equality shows the condition it returns, once the name of the type is known. -/
theorem agreement_eq_of_propertiesEqual_eq (htype : schema.typeName = other.typeName)
    (hproperties : Member.propertiesEqual schema = Member.propertiesEqual other) :
    Member.agreement schema.comparableFields = Member.agreement other.comparableFields := by
  have hcondition := congrArg (fun member =>
    Reader.condition? "propertiesEqual" schema.typeName (Member.text member)) hproperties
  simp only [Member.propertiesEqual] at hcondition
  rw [Reader.condition?_braced, htype, Reader.condition?_braced] at hcondition
  exact Option.some.inj hcondition

/-- Nothing else of a schema gets into its members. Each of the eight functions is looked at for
what it reads. -/
theorem members_congr (htype : schema.typeName = other.typeName)
    (hcompared : schema.comparableFields = other.comparableFields)
    (hfields : schema.codingFields = other.codingFields)
    (hstatements : schema.initializerLines = other.initializerLines)
    (hclass : schema.declarationKind = .classType ↔ other.declarationKind = .classType) :
    schema.members = other.members := by
  have hheader := Member.decodingHeader_eq_iff.2 hclass
  rw [members_eq_iff]
  simp only [Member.propertiesEqual, Member.equality, Member.hash, Member.codingKeys,
    Member.decodingInit, Member.encode, Member.emptyInit, Member.memberwiseInit, codingNames,
    writable, htype, hcompared,
    hfields, hstatements, hheader, and_self]

end Schema

namespace Directive

/-- **Two directives have the same members just when their schemas say the same**: the same name of
the type, the same names to compare, the same fields and the same lines of statements, of a class or
not of a class in both cases. For the names to compare it is enough that those of one of the two are
identifiers. -/
theorem members_eq_iff_of_interpret {directive directive' : Attribute}
    {declaration declaration' : Declaration} {schema schema' : Schema}
    (h : interpret directive declaration = .ok schema)
    (h' : interpret directive' declaration' = .ok schema')
    (hidentifiers : ∀ name ∈ schema.comparableFields, name.isIdentifier) :
    schema.members = schema'.members ↔
      schema.typeName = schema'.typeName ∧ schema.comparableFields = schema'.comparableFields ∧
      schema.codingFields = schema'.codingFields ∧
      schema.initializerLines = schema'.initializerLines ∧
      (schema.declarationKind = .classType ↔ schema'.declarationKind = .classType) := by
  have hmade := Schema.wellMade_of_interpret h
  have hmade' := Schema.wellMade_of_interpret h'
  constructor
  · intro hmembers
    obtain ⟨hproperties, hequality, _, hkeys, hdecoding, _⟩ := Schema.members_eq_iff.1 hmembers
    have hnames := hmade.codingNames_eq hmade' hkeys
    have htype := Schema.typeName_eq_of_equality_eq hnames hequality
    have hagreement := Schema.agreement_eq_of_propertiesEqual_eq htype hproperties
    have hne : schema.comparableFields ≠ [] :=
      comparableFields_of_interpret h ▸ List.concat_ne_nil _ _
    have hne' : schema'.comparableFields ≠ [] :=
      comparableFields_of_interpret h' ▸ List.concat_ne_nil _ _
    have hcompared := Member.agreement_injective hidentifiers hne hne' hagreement.symm
    exact ⟨htype, hcompared.symm, hmade.eq_of_decodingInit_eq hmade' hnames hdecoding⟩
  · rintro ⟨htype, hcompared, hfields, hstatements, hclass⟩
    exact Schema.members_congr htype hcompared hfields hstatements hclass

/-- The same note, with its statements further to the right and as an actor. -/
theorem members_eq_iff_of_interpret_note :
    ∃ schema schema', interpret Content.note.directive ⟨.structType, "Note"⟩ = .ok schema ∧
      interpret { Content.note with statements := "  open()\n \n    colour = nil" }.directive
        ⟨.actorType, "Note"⟩ = .ok schema' ∧
      schema ≠ schema' ∧ schema.members = schema'.members := by
  have hdescribed : List.Forall₂ (fun descriptor field => readField descriptor = .ok field)
      Content.note.descriptors Content.note.own :=
    .cons (by decide +kernel) (.cons (by decide +kernel) .nil)
  have hnote := @interpret_directive Content.note ⟨.structType, "Note"⟩ (by decide) hdescribed
    (by decide +kernel)
  have hother :=
    @interpret_directive { Content.note with statements := "  open()\n \n    colour = nil" }
    ⟨.actorType, "Note"⟩ (by decide) hdescribed (by decide +kernel)
  refine ⟨_, _, hnote, hother, fun hsame => ?_, ?_⟩
  · have hkind : DeclarationKind.structType = .actorType := congrArg Schema.declarationKind hsame
    cases hkind
  · refine (members_eq_iff_of_interpret hnote hother (by decide)).2 ?_
    simp only [Content.schema, true_and]
    exact ⟨by decide +kernel, by decide⟩

end Directive

end MemberSynthesis
