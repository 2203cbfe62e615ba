import MemberSynthesis.Member.OfSchema
import MemberSynthesis.Proofs.Member.Assignment
import MemberSynthesis.Proofs.Member.Reading
import MemberSynthesis.Proofs.Member.Transfer
import MemberSynthesis.Proofs.Outcome

/-!
# All members name the same fields

Eight members are written from the fields of a schema, each by a function of its own: keys, hash,
equality, the two coding methods, and the two other initializers. They have to agree on the names,
on their order and on which fields are optional, or the generated code does not fit together.
`Schema.MembersAgree` says so **of the text of the members alone**. It takes each of them apart into
lines and reads the names back from these, and all that it compares them with is the list of coding
fields.

Reading the text is what gives the statement its weight. That each function is applied to the same
list could be seen on its definition; but a line that is broken in two, a name that swallows what
follows it, or a bracket out of place would make the members disagree all the same, and none of that
shows in the definitions. The readers know nothing of fields: they are given a line and say which
name it holds, or that it holds none.

What carries the proof is that every member is a block whose body is known line by line
(`hasBlock_of_members`): a line is never broken in two, since no name and no type holds a line feed.
From there on, each line is read as it was written.

Which members leave the identity out is part of the statement: it has no line in any initializer and
one in each of the others. Indentation is part of it too, four spaces to the right for every line of
a body but the empty ones.
-/

set_option autoImplicit false

namespace MemberSynthesis

namespace Schema

/-- The only member of a kind is a block: the lines of a header, the lines of a body, each but the
empty ones moved four spaces to the right, and a closing brace. -/
def HasBlock (schema : Schema) (kind : MemberKind) (header body : List Text) : Prop :=
  ∃ name text, schema.members.filter (fun member => member.kind = kind) = [⟨kind, name, text⟩] ∧
    text.feedLines = header ++ (body.map (Text.indented "    ") ++ [("\x7d" : Text)])

/-- The coding fields but the identity, which is told by its name. That these are the writable ones
is a theorem and not the definition. -/
def withoutIdentity (schema : Schema) : List Field :=
  schema.codingFields.filter fun field => field.name ≠ "id"

/-- **The members of a schema agree on its fields**, as far as their lines can be read. Each part
gives the header and the body of one member and what a reader makes of its lines. -/
structure MembersAgree (schema : Schema) : Prop where
  /-- The names are identifiers, and no two of them are the same. -/
  isIdentifier : ∀ name ∈ schema.codingNames, name.isIdentifier
  distinct : schema.codingNames.Nodup
  identity : ("id" : Text) ∈ schema.codingNames
  keys : ∃ header lines, schema.HasBlock .codingKeys [header] lines ∧
    lines.mapM Reader.key? = some schema.codingNames
  hash : ∃ header lines, schema.HasBlock .hash [header] lines ∧
    lines.mapM Reader.hashed? = some schema.codingNames
  /-- The name of the type stands in the header of the equality, which may therefore have more than
  one line. -/
  equality : ∃ header condition, schema.HasBlock .equality header ["return " ++ condition] ∧
    (Reader.conjuncts condition).mapM Reader.compared? = some schema.codingNames
  encoding : ∃ header opening lines, schema.HasBlock .encode [header] (opening :: [] :: lines) ∧
    lines.mapM Transfer.ofEncodeLine? = some (schema.codingFields.map Transfer.ofField)
  decoding : ∃ header opening lines,
    schema.HasBlock .decodingInit [header] (opening :: [] :: lines ++ schema.initializerLines) ∧
      lines.mapM Transfer.ofDecodeLine? = some (schema.withoutIdentity.map Transfer.ofField)
  defaults : ∃ header lines,
    schema.HasBlock .emptyInit [header] (lines ++ schema.initializerLines) ∧
      lines.mapM Reader.default? = some (schema.withoutIdentity.map Mention.ofField)
  memberwise : ∃ parameters lines,
    schema.HasBlock .memberwiseInit (("init(" : Text) :: parameters ++ [(") \x7b" : Text)])
        (lines ++ schema.initializerLines) ∧
      Reader.parameters? parameters = some (schema.withoutIdentity.map Mention.ofField) ∧
      lines.mapM Reader.assigned? = some (schema.withoutIdentity.map Field.name)

variable {schema : Schema}

/-! ## The bodies, line by line

Each member is written by one function around a list of lines, some made from names and some from
fields. That no line holds a line feed is seen for all lines of a form at once, given that what is
written around the name holds none. -/

/-- A block is known by the header and the body it was made from. The header may have several lines,
as the parameters of an initializer have one each. -/
theorem hasBlock_of_members {kind : MemberKind} {name header : Text} {lines body : List Text}
    (hmember : schema.members.filter (fun member => member.kind = kind) =
      [⟨kind, name, Member.braced header body⟩])
    (hheader : header.feedLines = lines) (hbody : ∀ line ∈ body, CodePoint.scalar '\n' ∉ line) :
    schema.HasBlock kind lines body :=
  ⟨name, _, hmember, hheader ▸ Member.feedLines_braced hbody⟩

namespace WellMade

theorem isIdentifier_of_mem (h : schema.WellMade) {name : Text}
    (hname : name ∈ schema.codingNames) :
    name.isIdentifier := by
  obtain ⟨field, hfield, rfl⟩ := List.mem_map.1 hname
  exact (h.isSpelled_of_mem hfield).name

theorem feed_not_mem_name (h : schema.WellMade) {name : Text} (hname : name ∈ schema.codingNames) :
    CodePoint.scalar '\n' ∉ name :=
  Text.not_mem_of_isIdentifier (h.isIdentifier_of_mem hname) (by decide)

/-- A line that is written around the name of a field breaks in two only if what is around it
does. -/
theorem feed_not_mem_of_names (h : schema.WellMade) {write : Text → Text}
    (hwrite : ∀ name : Text, CodePoint.scalar '\n' ∉ name → CodePoint.scalar '\n' ∉ write name) :
    ∀ line ∈ schema.codingNames.map write, CodePoint.scalar '\n' ∉ line := by
  intro line hline
  obtain ⟨name, hname, rfl⟩ := List.mem_map.1 hline
  exact hwrite name (h.feed_not_mem_name hname)

/-- The lines of an initializer: first those of the fields, then those of the statements. The latter
are lines of a text, and so hold no line feed whatever they say. -/
theorem feed_not_mem_of_writable (h : schema.WellMade) {write : Field → Text}
    (hwrite : ∀ {field : Field}, field.IsSpelled → CodePoint.scalar '\n' ∉ write field) :
    ∀ line ∈ schema.writable.map write ++ schema.initializerLines,
      CodePoint.scalar '\n' ∉ line := by
  intro line hline
  rcases List.mem_append.1 hline with hline | hline
  · obtain ⟨field, hfield, rfl⟩ := List.mem_map.1 hline
    exact hwrite (h.isSpelled_of_mem_writable hfield)
  · exact Text.not_mem_of_mem_lines (by decide) hline

theorem feed_not_mem_keyLines (h : schema.WellMade) :
    ∀ line ∈ schema.codingNames.map Member.keyLine, CodePoint.scalar '\n' ∉ line := by
  refine h.feed_not_mem_of_names fun name hname => ?_
  rw [Member.keyLine, List.mem_append, not_or]
  exact ⟨by decide, hname⟩

theorem feed_not_mem_hashLines (h : schema.WellMade) :
    ∀ line ∈ schema.codingNames.map Member.hashLine, CodePoint.scalar '\n' ∉ line := by
  refine h.feed_not_mem_of_names fun name hname => ?_
  simp only [Member.hashLine, List.mem_append, not_or]
  exact ⟨⟨by decide, hname⟩, by decide⟩

theorem feed_not_mem_decodingLines (h : schema.WellMade) :
    ∀ line ∈ Member.decodingContainer :: [] ::
      (schema.writable.map Member.decodeLine ++ schema.initializerLines),
        CodePoint.scalar '\n' ∉ line := by
  intro line hline
  rcases List.mem_cons.1 hline with rfl | hline
  · decide
  · rcases List.mem_cons.1 hline with rfl | hline
    · exact List.not_mem_nil
    · exact h.feed_not_mem_of_writable Member.not_mem_decodeLine line hline

theorem hasBlock_codingKeys (h : schema.WellMade) :
    schema.HasBlock .codingKeys [Member.opened "private enum CodingKeys: String, CodingKey"]
      (schema.codingNames.map Member.keyLine) :=
  hasBlock_of_members rfl (Text.feedLines_of_not_mem (by decide)) h.feed_not_mem_keyLines

theorem hasBlock_hash (h : schema.WellMade) :
    schema.HasBlock .hash [Member.opened "func hash(into hasher: inout Hasher)"]
      (schema.codingNames.map Member.hashLine) :=
  hasBlock_of_members rfl (Text.feedLines_of_not_mem (by decide)) h.feed_not_mem_hashLines

theorem hasBlock_equality (h : schema.WellMade) :
    schema.HasBlock .equality (Member.comparisonHeader "== " schema.typeName).feedLines
      ["return " ++ Member.agreement schema.codingNames] := by
  refine hasBlock_of_members rfl rfl fun line hline => ?_
  rw [List.mem_singleton.1 hline, List.mem_append, not_or]
  refine ⟨by decide, Text.not_mem_joined (by decide) fun text htext => ?_⟩
  obtain ⟨name, hname, rfl⟩ := List.mem_map.1 htext
  exact Member.not_mem_comparison (h.isIdentifier_of_mem hname) (by decide) (by decide) (by decide)

theorem hasBlock_encode (h : schema.WellMade) :
    schema.HasBlock .encode [Member.opened "func encode(to encoder: Encoder) throws"]
      (Member.encodingContainer :: [] :: schema.codingFields.map Member.encodeLine) := by
  refine hasBlock_of_members rfl (Text.feedLines_of_not_mem (by decide)) fun line hline => ?_
  rcases List.mem_cons.1 hline with rfl | hline
  · decide
  · rcases List.mem_cons.1 hline with rfl | hline
    · exact List.not_mem_nil
    · obtain ⟨field, hfield, rfl⟩ := List.mem_map.1 hline
      exact Member.not_mem_encodeLine (h.isSpelled_of_mem hfield)

theorem hasBlock_decodingInit (h : schema.WellMade) :
    schema.HasBlock .decodingInit [Member.decodingHeader schema.declarationKind]
      (Member.decodingContainer :: [] ::
        (schema.writable.map Member.decodeLine ++ schema.initializerLines)) :=
  hasBlock_of_members rfl
    (Text.feedLines_of_not_mem (Member.not_mem_decodingHeader schema.declarationKind))
    h.feed_not_mem_decodingLines

theorem hasBlock_emptyInit (h : schema.WellMade) :
    schema.HasBlock .emptyInit [Member.opened "init()"]
      (schema.writable.map Member.defaultLine ++ schema.initializerLines) := by
  refine hasBlock_of_members rfl (Text.feedLines_of_not_mem (by decide)) ?_
  exact h.feed_not_mem_of_writable Member.feed_not_mem_defaultLine

theorem hasBlock_memberwiseInit (h : schema.WellMade) :
    schema.HasBlock .memberwiseInit (Member.headerLines schema.writable)
      (schema.writable.map Member.assignmentLine ++ schema.initializerLines) := by
  refine hasBlock_of_members rfl
    (Member.feedLines_memberwiseHeader fun _ hfield => h.isSpelled_of_mem_writable hfield) ?_
  exact h.feed_not_mem_of_writable fun hspelled =>
    Member.not_mem_assignmentLine hspelled (by decide) (by decide) (by decide)

/-! ## The names, read back

The body of a member is a map over the names or the fields, and each reader undoes the function that
is mapped. So a member is read with one lemma about a single line. -/

/-- The identity is the only computed field, and the only one of its name. So to leave it out by
name and to leave out what is computed come to the same. -/
theorem withoutIdentity_eq (h : schema.WellMade) : schema.withoutIdentity = schema.writable := by
  obtain ⟨own, hfields, hown⟩ := h.described
  have hdistinct := h.distinct
  rw [codingNames, hfields, List.map_append, List.nodup_append] at hdistinct
  apply List.filter_congr
  intro field hfield
  rw [hfields, List.mem_append] at hfield
  rcases hfield with hfield | hfield
  · have hname : field.name ≠ "id" :=
      hdistinct.2.2 field.name (List.mem_map_of_mem hfield) "id" (by decide)
    rw [(hown field hfield).2]
    simpa using hname
  · revert hfield field
    decide

theorem mem_codingNames_of_implicit (h : schema.WellMade) {name : Text}
    (hname : name ∈ Field.implicit.map Field.name) : name ∈ schema.codingNames := by
  obtain ⟨own, hfields, _⟩ := h.described
  rw [codingNames, hfields, List.map_append]
  exact List.mem_append_right _ hname

theorem identity_mem (h : schema.WellMade) : ("id" : Text) ∈ schema.codingNames :=
  h.mem_codingNames_of_implicit (by decide)

/-- Lines that are written around the names of the fields are read back as these names, all of them
and in their order. -/
theorem mapM_names (h : schema.WellMade) {write : Text → Text} {read : Text → Option Text}
    (hread : ∀ {name : Text}, name.isIdentifier → read (write name) = some name) :
    (schema.codingNames.map write).mapM read = some schema.codingNames := by
  rw [Outcome.mapM_map_eq_some fun name hname => hread (h.isIdentifier_of_mem hname), List.map_id']

end WellMade

/-- **The members of a well made schema agree on its fields.** One part after the other, each from
the block of the member and the reader of its lines. -/
theorem WellMade.membersAgree (h : schema.WellMade) : schema.MembersAgree where
  isIdentifier _ hname := h.isIdentifier_of_mem hname
  distinct := h.distinct
  identity := h.identity_mem
  keys := ⟨_, _, h.hasBlock_codingKeys, h.mapM_names Reader.key?_keyLine⟩
  hash := ⟨_, _, h.hasBlock_hash, h.mapM_names Reader.hashed?_hashLine⟩
  equality := by
    refine ⟨_, _, h.hasBlock_equality, ?_⟩
    rw [Member.conjuncts_agreement (List.ne_nil_of_mem h.identity_mem) fun _ =>
      h.isIdentifier_of_mem]
    exact h.mapM_names Reader.compared?_comparison
  encoding := by
    refine ⟨_, _, _, h.hasBlock_encode, ?_⟩
    exact Outcome.mapM_map_eq_some fun field hfield =>
      Transfer.ofEncodeLine?_encodeLine (h.isSpelled_of_mem hfield)
  decoding := by
    rw [h.withoutIdentity_eq]
    refine ⟨_, _, _, h.hasBlock_decodingInit, ?_⟩
    exact Outcome.mapM_map_eq_some fun field hfield =>
      Transfer.ofDecodeLine?_decodeLine (h.isSpelled_of_mem_writable hfield)
  defaults := by
    rw [h.withoutIdentity_eq]
    refine ⟨_, _, h.hasBlock_emptyInit, ?_⟩
    exact Outcome.mapM_map_eq_some fun field hfield =>
      Reader.default?_defaultLine (h.isSpelled_of_mem_writable hfield)
  memberwise := by
    rw [h.withoutIdentity_eq]
    refine ⟨_, _, h.hasBlock_memberwiseInit, ?_, ?_⟩
    · exact Reader.parameters?_parameterLines fun field hfield => h.isSpelled_of_mem_writable hfield
    · exact Outcome.mapM_map_eq_some fun field hfield =>
        Reader.assigned?_assignmentLine (h.isSpelled_of_mem_writable hfield)

end Schema

namespace Directive

/-- **All members that come from a directive agree on the fields**: on their names, on the order in
which they stand, and on which of them are optional. -/
theorem membersAgree_of_interpret {directive : Attribute} {declaration : Declaration}
    {schema : Schema} (h : interpret directive declaration = .ok schema) : schema.MembersAgree :=
  (Schema.wellMade_of_interpret h).membersAgree

/-- A note, with an optional field and statements that have an empty line among them. The type of
the other field holds a comma and brackets. -/
def Content.note : Content where
  comparable := []
  descriptors := ["body: [Line<Int, String>]", "colour: Colour?"]
  own := [⟨"body", "[Line<Int, String>]", false, false⟩, ⟨"colour", "Colour", true, false⟩]
  statements := "open()\n\n  colour = nil"

theorem membersAgree_note :
    ∃ schema, interpret Content.note.directive ⟨.structType, "Note"⟩ = .ok schema ∧
      schema.initializerLines = ["open()", "", "  colour = nil"] ∧
      schema.withoutIdentity.map Mention.ofField = [⟨"body", false⟩, ⟨"colour", true⟩,
        ⟨"publicId", false⟩, ⟨"name", false⟩, ⟨"createdAt", false⟩, ⟨"updatedAt", false⟩,
        ⟨"deletedAt", true⟩] ∧
      schema.MembersAgree := by
  have hinterpret : interpret Content.note.directive ⟨.structType, "Note"⟩ =
      .ok (Content.note.schema ⟨.structType, "Note"⟩) :=
    interpret_directive (by decide) (.cons (by decide +kernel) (.cons (by decide +kernel) .nil))
      (by decide +kernel)
  exact ⟨_, hinterpret, by decide +kernel, by decide +kernel, membersAgree_of_interpret hinterpret⟩

end Directive

end MemberSynthesis
