import Mathlib.Data.List.Nodup
import Mathlib.Data.List.Perm.Basic
import Mathlib.Data.Set.List
import MemberSynthesis.Proofs.Directive.Arguments
import MemberSynthesis.Proofs.Directive.PlainStrings
import MemberSynthesis.Proofs.Directive.Descriptor

/-!
# Which directives have a schema

`interpret` finds out by a fixed order of checks whether a directive has a schema, and then tests
that schema against invariants that are written down elsewhere. Here the two are held against one
declarative condition, `Content.StatedBy`: what a directive says, and that it says it properly. The
condition has no order and no first mistake; it is a conjunction about the arguments by their
labels.

**A directive has a schema just when it states some content, and the schema is then the one of that
content** (`interpret_eq_ok_iff`). **Whatever else happens is a mistake of the author**
(`mistake_of_interpret`): the three outcomes that `Rejection` keeps apart from mistakes, an argument
looked for in vain, a field with faults and a schema with one, do not occur. The first check that
could bring one of them about always comes after a check of the author's that rules it out.

* A label is looked for only when three arguments with three different labels were found, and there
  are three labels.
* A field with faults would have an empty name, or a question mark in its type; but a descriptor
  that was accepted has an identifier for a name and a spelling for a type.
* A schema with a fault would break one of four invariants (`Schema.fault?`). All of them hold of a
  schema that is made of own fields and the implicit ones and whose names differ, which is what the
  last check of the author's asks for.

The content is quantified over, not computed: that it is unique follows, but is nowhere needed.
Which mistake comes out when there are several is the subject of another module, and no part of the
statement here.
-/

set_option autoImplicit false

namespace MemberSynthesis

/-- A schema that is made as `interpret` makes it has no fault. The invariants say so in four
operations on the coding fields as a whole; what they amount to is that the fields before the
implicit ones are writable and all names differ. -/
theorem Schema.fault?_eq_none {schema : Schema} {own : List Field} {names : List Text}
    (hfields : schema.codingFields = own ++ Field.implicit)
    (hwritable : ∀ field ∈ own, field.readOnly = false)
    (hdistinct : schema.codingNames.Nodup)
    (hcompared : schema.comparableFields = names ++ [comparedName]) : schema.fault? = none := by
  have hsuffix : Field.implicit.isSuffixOf schema.codingFields := by
    rw [List.isSuffixOf_iff_suffix, hfields]
    exact List.suffix_append _ _
  have hcount : schema.codingFields.countP Field.readOnly = 1 := by
    rw [hfields, List.countP_append, List.countP_eq_zero.2 (by simpa using hwritable)]
    rfl
  simp [fault?, hsuffix, hcount, hdistinct, hcompared]

namespace Directive

/-! ## What a directive says

A content is what the author means, a directive is how it is put, and a declaration is what it is
put about. `Content.StatedBy` relates the three, and `Content.schema` is what the interpretation is
to give. -/

/-- What a directive says: the texts of its arguments, and the fields that the descriptors among
them describe. The descriptors are kept because the same field can be described in several ways. -/
structure Content where
  comparable : List Text
  descriptors : List Text
  own : List Field
  statements : Text

/-- The schema of a type about which this is said. The compared name comes last, and so do the
implicit fields. -/
def Content.schema (content : Content) (declaration : Declaration) : Schema where
  typeName := declaration.name
  declarationKind := declaration.kind
  comparableFields := content.comparable ++ [Schema.comparedName]
  codingFields := content.own ++ Field.implicit
  initializerText := content.statements

/-- **A directive states a content properly**: it is attached to a type, has one argument for each
label, the arguments are written with plain strings, every descriptor is accepted, and no two coding
fields have one name. The labels are compared up to their order. -/
structure Content.StatedBy (content : Content) (directive : Attribute)
    (declaration : Declaration) : Prop where
  attached : declaration.kind = .classType ∨ declaration.kind = .structType ∨
    declaration.kind = .actorType
  labels : (directive.arguments.map Argument.label).Perm
    [some ArgumentLabel.comparableMembers.word, some ArgumentLabel.codingMembers.word,
      some ArgumentLabel.uselessInitializations.word]
  comparable : ∀ argument ∈ directive.arguments,
    argument.label = some ArgumentLabel.comparableMembers.word →
    argument.expression = .array (content.comparable.map Expression.plain)
  coding : ∀ argument ∈ directive.arguments,
    argument.label = some ArgumentLabel.codingMembers.word →
    argument.expression = .array (content.descriptors.map Expression.plain)
  statements : ∀ argument ∈ directive.arguments,
    argument.label = some ArgumentLabel.uselessInitializations.word →
    argument.expression = .plain content.statements
  described : List.Forall₂ (fun descriptor field => readField descriptor = .ok field)
    content.descriptors content.own
  distinct : (content.own.map Field.name).Nodup
  apart : ∀ field ∈ content.own, field.name ∉
    (["id", "publicId", "name", "createdAt", "updatedAt", "deletedAt"] : List Text)

/-! ## The stages of the interpretation

The interpretation is one sequence of steps. It is cut where a later proof needs to stop: behind the
labels (`schemaOfFound`), and behind looking the values up (`schemaOf`), from where on the directive
plays no part any more. -/

/-- The schema that three expressions describe, each as the value of its argument. All that depends
on the arguments' values, and nothing that depends on their order or labels. -/
def schemaOf (declaration : Declaration) (comparable coding statements : Expression) :
    Except Rejection Schema := do
  let names ← orMistake (comparable.plainStrings ArgumentLabel.comparableMembers.word)
  let descriptors ← orMistake (coding.plainStrings ArgumentLabel.codingMembers.word)
  let fields ← codingFields descriptors
  let text ← orMistake (statements.plainString ArgumentLabel.uselessInitializations.word)
  checked
    { typeName := declaration.name
      declarationKind := declaration.kind
      comparableFields := names ++ [Schema.comparedName]
      codingFields := fields
      initializerText := text }

theorem orMistake_eq_ok_iff {α : Type} {outcome : Except Mistake α} {a : α} :
    orMistake outcome = .ok a ↔ outcome = .ok a := by
  cases outcome <;> simp [orMistake]

theorem orMistake_eq_error_iff {α : Type} {outcome : Except Mistake α} {rejection : Rejection} :
    orMistake outcome = .error rejection ↔
      ∃ mistake, rejection = .mistake mistake ∧ outcome = .error mistake := by
  cases outcome <;> simp [orMistake, eq_comm]

theorem mistake_of_orMistake {α : Type} {outcome : Except Mistake α} {rejection : Rejection}
    (h : orMistake outcome = .error rejection) : ∃ mistake, rejection = .mistake mistake := by
  cases outcome with
  | ok a => cases h
  | error mistake =>
    cases h
    exact ⟨mistake, rfl⟩

/-- The schema that the expressions found under the labels describe. The lookups can fail here, but
do not once the three labels are there. -/
def schemaOfFound (declaration : Declaration) (found : List (ArgumentLabel × Expression)) :
    Except Rejection Schema := do
  let comparable ← expressionOf .comparableMembers found
  let names ← orMistake (comparable.plainStrings ArgumentLabel.comparableMembers.word)
  let coding ← expressionOf .codingMembers found
  let descriptors ← orMistake (coding.plainStrings ArgumentLabel.codingMembers.word)
  let fields ← codingFields descriptors
  let statements ← expressionOf .uselessInitializations found
  let text ← orMistake (statements.plainString ArgumentLabel.uselessInitializations.word)
  checked
    { typeName := declaration.name
      declarationKind := declaration.kind
      comparableFields := names ++ [Schema.comparedName]
      codingFields := fields
      initializerText := text }

/-- The interpretation by its stages: what is annotated, how many arguments there are, under which
labels they stand, and what they say. Only this equation opens `interpret`. -/
theorem interpret_eq (directive : Attribute) (declaration : Declaration) :
    interpret directive declaration =
      if declaration.kind ∉ Mistake.attachableKinds then
        .error (.mistake (.wrongAttachment directive.name declaration))
      else if directive.arguments.length ≠ 3 then
        .error (.mistake (.wrongArgumentCount directive.name directive.arguments.length))
      else
        orMistake (collect directive.name 0 [] directive.arguments) >>=
          schemaOfFound declaration := by
  unfold interpret
  have hthree : (Vocabulary.words ArgumentLabel).length = 3 := rfl
  rw [hthree]
  split
  · rfl
  · dsimp only
    split <;> rfl

/-- Once every label is found, the order in which the arguments are written is forgotten: each
lookup gives the value of its label, in whatever order the three stand. -/
theorem schemaOfFound_eq {declaration : Declaration} {comparable coding statements : Expression}
    {found : List (ArgumentLabel × Expression)} (hnodup : (found.map Prod.fst).Nodup)
    (hperm : found.Perm [(.comparableMembers, comparable), (.codingMembers, coding),
      (.uselessInitializations, statements)]) :
    schemaOfFound declaration found = schemaOf declaration comparable coding statements := by
  have hlookup : ∀ label e, (label, e) ∈ found → expressionOf label found = .ok e :=
    fun label e => expressionOf_eq_ok_of_mem hnodup
  unfold schemaOfFound
  rw [hlookup .comparableMembers comparable (hperm.mem_iff.2 (by simp)),
    hlookup .codingMembers coding (hperm.mem_iff.2 (by simp)),
    hlookup .uselessInitializations statements (hperm.mem_iff.2 (by simp))]
  rfl

/-! ## The fields

Each descriptor is read on its own, and the names are compared when all are read, with those of the
implicit fields among them. So there are two ways to fail, and both are mistakes. -/

theorem firstRepeated?_eq_none_iff {names : List Text} : ∀ {seen : List Text},
    firstRepeated? seen names = none ↔ names.Nodup ∧ ∀ name ∈ names, name ∉ seen := by
  induction names with
  | nil => simp [firstRepeated?]
  | cons name more ih =>
    intro seen
    rw [firstRepeated?]
    by_cases hseen : name ∈ seen
    · simp [hseen]
    · rw [if_neg hseen, ih, List.nodup_cons]
      constructor
      · rintro ⟨hmore, hfresh⟩
        refine ⟨⟨fun h => hfresh name h List.mem_cons_self, hmore⟩, fun n hn => ?_⟩
        rcases List.mem_cons.1 hn with rfl | hn
        · exact hseen
        · exact fun h => hfresh n hn (List.mem_cons_of_mem _ h)
      · rintro ⟨⟨hname, hmore⟩, hfresh⟩
        refine ⟨hmore, fun n hn h => ?_⟩
        rcases List.mem_cons.1 h with rfl | h
        · exact hname hn
        · exact hfresh n (List.mem_cons_of_mem _ hn) h

/-- The name that is found to be repeated is the first one that occurs earlier. The names in `seen`
count as earlier, which makes the statement one that the recursion preserves. -/
theorem firstRepeated?_eq_some_iff {names : List Text} {name : Text} : ∀ {seen : List Text},
    firstRepeated? seen names = some name ↔
      ∃ before, Outcome.IsFirst (fun earlier n => n ∈ earlier ∨ n ∈ seen) names before name := by
  induction names with
  | nil => simp [firstRepeated?, Outcome.not_isFirst_nil]
  | cons head more ih =>
    intro seen
    simp only [Outcome.isFirst_cons_iff, List.not_mem_nil, false_or]
    rw [firstRepeated?]
    by_cases hseen : head ∈ seen
    · rw [if_pos hseen]
      constructor
      · intro h
        exact ⟨[], .inl ⟨rfl, (Option.some.inj h).symm, hseen⟩⟩
      · rintro ⟨before, ⟨_, rfl, _⟩ | ⟨hfresh, _⟩⟩
        · rfl
        · exact absurd hseen hfresh
    · rw [if_neg hseen, ih]
      -- A name passed is one that was seen.
      have hpassed : (fun (earlier : List Text) (n : Text) => n ∈ earlier ∨ n ∈ head :: seen) =
          fun earlier n => n ∈ head :: earlier ∨ n ∈ seen := by
        funext earlier n
        simp [or_left_comm, or_assoc]
      rw [hpassed]
      constructor
      · rintro ⟨before, hfirst⟩
        exact ⟨head :: before, .inr ⟨hseen, before, rfl, hfirst⟩⟩
      · rintro ⟨before, ⟨_, _, h⟩ | ⟨_, before, rfl, hfirst⟩⟩
        · exact absurd h hseen
        · exact ⟨before, hfirst⟩

theorem codingFields_eq_ok_iff {descriptors : List Text} {fields : List Field} :
    codingFields descriptors = .ok fields ↔
      ∃ own, List.Forall₂ (fun descriptor field => readField descriptor = .ok field)
          descriptors own ∧
        fields = own ++ Field.implicit ∧ (fields.map Field.name).Nodup := by
  unfold codingFields
  rw [Outcome.bind_eq_ok_iff]
  constructor
  · rintro ⟨own, hown, h⟩
    dsimp only at h
    split at h
    · cases h
    · rename_i hrepeated
      cases h
      exact ⟨own, Outcome.mapM_eq_ok_iff.1 hown, rfl, (firstRepeated?_eq_none_iff.1 hrepeated).1⟩
  · rintro ⟨own, hown, rfl, hnodup⟩
    refine ⟨own, Outcome.mapM_eq_ok_iff.2 hown, ?_⟩
    have hrepeated : firstRepeated? [] ((own ++ Field.implicit).map Field.name) = none :=
      firstRepeated?_eq_none_iff.2 ⟨hnodup, by simp⟩
    simp only [hrepeated]
    rfl

theorem mistake_of_codingFields {descriptors : List Text} {rejection : Rejection}
    (h : codingFields descriptors = .error rejection) :
    ∃ mistake, rejection = .mistake mistake := by
  unfold codingFields at h
  rcases Outcome.bind_eq_error_iff.1 h with h | ⟨own, _, h⟩
  · obtain ⟨descriptor, _, h⟩ := Outcome.exists_of_mapM_eq_error h
    exact ⟨_, eq_malformed_of_readField h⟩
  · dsimp only at h
    split at h
    · cases h
      exact ⟨_, rfl⟩
    · cases h

/-- The fields that descriptors describe are spelled, and none of them is computed: only the
identity is, and that is no field of a descriptor. -/
theorem isSpelled_of_described {descriptors : List Text} {own : List Field}
    (h : List.Forall₂ (fun descriptor field => readField descriptor = .ok field)
      descriptors own) : ∀ field ∈ own, field.IsSpelled ∧ field.readOnly = false := by
  intro field hfield
  obtain ⟨descriptor, _, hread⟩ := Outcome.exists_of_mem_of_forall₂ h field hfield
  exact Descriptor.isSpelled_of_field? (readField_eq_ok_iff.1 hread)

/-- The names of all coding fields differ just when those of the described fields do and none of
them is the name of an implicit one. The implicit names differ among themselves, so they add no
condition. -/
theorem nodup_names_iff {own : List Field} :
    ((own ++ Field.implicit).map Field.name).Nodup ↔
      (own.map Field.name).Nodup ∧ ∀ field ∈ own, field.name ∉
        (["id", "publicId", "name", "createdAt", "updatedAt", "deletedAt"] : List Text) := by
  have himplicit : Field.implicit.map Field.name =
      ["id", "publicId", "name", "createdAt", "updatedAt", "deletedAt"] := rfl
  rw [List.map_append, List.nodup_append, himplicit]
  constructor
  · rintro ⟨hown, -, hdisjoint⟩
    exact ⟨hown, fun field hfield hmem => hdisjoint _ (List.mem_map_of_mem hfield) _ hmem rfl⟩
  · rintro ⟨hown, hapart⟩
    refine ⟨hown, by decide, ?_⟩
    rintro name hname _ hmem rfl
    obtain ⟨field, hfield, rfl⟩ := List.mem_map.1 hname
    exact hapart field hfield hmem

/-! ## The schema

What the last stage tests has been made sure of by the stages before it. The test is written all the
same in the program, and here it is shown to let everything through that comes so far. -/

/-- The invariants hold of the schema of any content whose descriptors are accepted and whose names
differ: testing them changes nothing. -/
theorem checked_schema (content : Content) (declaration : Declaration)
    (hdescribed : List.Forall₂ (fun descriptor field => readField descriptor = .ok field)
      content.descriptors content.own)
    (hnodup : ((content.own ++ Field.implicit).map Field.name).Nodup) :
    checked (content.schema declaration) = .ok (content.schema declaration) := by
  have hfault : (content.schema declaration).fault? = none :=
    Schema.fault?_eq_none rfl
      (fun field hfield => (isSpelled_of_described hdescribed field hfield).2) hnodup rfl
  rw [checked, hfault]

theorem schemaOf_eq_ok_iff {declaration : Declaration} {comparable coding statements : Expression}
    {schema : Schema} :
    schemaOf declaration comparable coding statements = .ok schema ↔
      ∃ content : Content, comparable = .array (content.comparable.map Expression.plain) ∧
        coding = .array (content.descriptors.map Expression.plain) ∧
        statements = .plain content.statements ∧
        List.Forall₂ (fun descriptor field => readField descriptor = .ok field)
          content.descriptors content.own ∧
        ((content.own ++ Field.implicit).map Field.name).Nodup ∧
        schema = content.schema declaration := by
  unfold schemaOf
  constructor
  · intro h
    obtain ⟨names, hnames, h⟩ := Outcome.bind_eq_ok_iff.1 h
    obtain ⟨descriptors, hdescriptors, h⟩ := Outcome.bind_eq_ok_iff.1 h
    obtain ⟨fields, hfields, h⟩ := Outcome.bind_eq_ok_iff.1 h
    obtain ⟨text, htext, h⟩ := Outcome.bind_eq_ok_iff.1 h
    obtain ⟨own, hdescribed, rfl, hnodup⟩ := codingFields_eq_ok_iff.1 hfields
    refine ⟨⟨names, descriptors, own, text⟩,
      Expression.plainStrings_eq_ok_iff.1 (orMistake_eq_ok_iff.1 hnames),
      Expression.plainStrings_eq_ok_iff.1 (orMistake_eq_ok_iff.1 hdescriptors),
      Expression.plainString_eq_ok_iff.1 (orMistake_eq_ok_iff.1 htext), hdescribed, hnodup, ?_⟩
    -- The test of the schema is passed by all that comes from descriptors with distinct names.
    have hchecked := checked_schema ⟨names, descriptors, own, text⟩ declaration hdescribed hnodup
    exact Except.ok.inj (h.symm.trans hchecked)
  · rintro ⟨content, rfl, rfl, rfl, hdescribed, hnodup, rfl⟩
    refine Outcome.bind_eq_ok_iff.2
      ⟨_, orMistake_eq_ok_iff.2 (Expression.plainStrings_eq_ok_iff.2 rfl), ?_⟩
    refine Outcome.bind_eq_ok_iff.2
      ⟨_, orMistake_eq_ok_iff.2 (Expression.plainStrings_eq_ok_iff.2 rfl), ?_⟩
    refine Outcome.bind_eq_ok_iff.2
      ⟨_, codingFields_eq_ok_iff.2 ⟨content.own, hdescribed, rfl, hnodup⟩, ?_⟩
    refine Outcome.bind_eq_ok_iff.2
      ⟨_, orMistake_eq_ok_iff.2 (Expression.plainString_eq_ok_iff.2 rfl), ?_⟩
    exact checked_schema content declaration hdescribed hnodup

theorem mistake_of_schemaOf {declaration : Declaration}
    {comparable coding statements : Expression} {rejection : Rejection}
    (h : schemaOf declaration comparable coding statements = .error rejection) :
    ∃ mistake, rejection = .mistake mistake := by
  unfold schemaOf at h
  rcases Outcome.bind_eq_error_iff.1 h with h | ⟨names, _, h⟩
  · exact mistake_of_orMistake h
  rcases Outcome.bind_eq_error_iff.1 h with h | ⟨descriptors, _, h⟩
  · exact mistake_of_orMistake h
  rcases Outcome.bind_eq_error_iff.1 h with h | ⟨fields, hfields, h⟩
  · exact mistake_of_codingFields h
  rcases Outcome.bind_eq_error_iff.1 h with h | ⟨text, _, h⟩
  · exact mistake_of_orMistake h
  -- All that is left is the test of the invariants, which does not fail.
  obtain ⟨own, hdescribed, rfl, hnodup⟩ := codingFields_eq_ok_iff.1 hfields
  have hchecked := checked_schema ⟨names, descriptors, own, text⟩ declaration hdescribed hnodup
  cases h.symm.trans hchecked

/-! ## The directive

The arguments of an accepted directive are three, with the three labels in some order. From there on
they are compared with the three in the order of the labels, up to a permutation, and the two
directions of the theorem meet in `interpret_of_perm`. -/

/-- The entries of arguments whose labels are the three of the directive in some order. No two have
one label, and there are three of them. -/
theorem exists_entries_of_labels {arguments : List Argument}
    (hlabels : (arguments.map Argument.label).Perm
      ((Vocabulary.all : List ArgumentLabel).map fun label => some label.word)) :
    ∃ entries : List (ArgumentLabel × Expression), arguments = entries.map labelled ∧
      entries.length = 3 ∧ (entries.map Prod.fst).Nodup := by
  have hlabelled : ∀ argument ∈ arguments, ∃ entry, labelled entry = argument := by
    intro argument hargument
    obtain ⟨label, _, hlabel⟩ :=
      List.mem_map.1 (hlabels.mem_iff.1 (List.mem_map_of_mem hargument))
    exact ⟨(label, argument.expression), by rw [labelled, hlabel]⟩
  obtain ⟨entries, rfl⟩ : arguments ∈ Set.range (List.map labelled) := by
    rw [Set.range_list_map]
    exact hlabelled
  refine ⟨entries, rfl, by simpa [Vocabulary.all] using hlabels.length_eq, ?_⟩
  -- No two words are the same, so no two labels are.
  have hnodup := hlabels.nodup_iff.2 (by decide)
  rw [List.map_map] at hnodup
  refine List.Nodup.of_map (fun label : ArgumentLabel => some label.word) ?_
  rw [List.map_map]
  exact hnodup

theorem mem_attachableKinds_iff {kind : DeclarationKind} :
    kind ∈ Mistake.attachableKinds ↔
      kind = .classType ∨ kind = .structType ∨ kind = .actorType := by
  simp [Mistake.attachableKinds]

/-- The arguments of a directive in the order in which it lists its labels. Every accepted directive
has these, up to their order. -/
def threeArguments (comparable coding statements : Expression) : List Argument :=
  [⟨some ArgumentLabel.comparableMembers.word, comparable⟩,
    ⟨some ArgumentLabel.codingMembers.word, coding⟩,
    ⟨some ArgumentLabel.uselessInitializations.word, statements⟩]

/-- Arguments with the three labels in some order are the three in that order, for some values. -/
theorem exists_perm_of_labels {arguments : List Argument}
    (hlabels : (arguments.map Argument.label).Perm
      ((Vocabulary.all : List ArgumentLabel).map fun label => some label.word)) :
    ∃ comparable coding statements,
      arguments.Perm (threeArguments comparable coding statements) := by
  obtain ⟨entries, rfl, hlength, hnodup⟩ := exists_entries_of_labels hlabels
  obtain ⟨comparable, coding, statements, hperm⟩ := exists_perm_of_nodup hlength hnodup
  exact ⟨comparable, coding, statements, hperm.map labelled⟩

/-- The arguments with a label, if the three are given in some order. Each label stands before one
value, so membership is equality with that value. -/
theorem mem_iff_of_perm {arguments : List Argument}
    {comparable coding statements : Expression}
    (hperm : arguments.Perm (threeArguments comparable coding statements)) :
    (∀ e, ⟨some ArgumentLabel.comparableMembers.word, e⟩ ∈ arguments ↔ e = comparable) ∧
      (∀ e, ⟨some ArgumentLabel.codingMembers.word, e⟩ ∈ arguments ↔ e = coding) ∧
      ∀ e, ⟨some ArgumentLabel.uselessInitializations.word, e⟩ ∈ arguments ↔
        e = statements := by
  refine ⟨?_, ?_, ?_⟩
  all_goals
    intro e
    rw [hperm.mem_iff]
    simp [threeArguments, word_inj]

/-- Three arguments that are collected are those of the directive in some order, and their values
are what is found. That there are three is needed: fewer would be collected as well. -/
theorem exists_threeArguments {directive : Text} {arguments : List Argument}
    {found : List (ArgumentLabel × Expression)} (declaration : Declaration)
    (hcount : arguments.length = 3) (h : collect directive 0 [] arguments = .ok found) :
    ∃ comparable coding statements,
      arguments.Perm (threeArguments comparable coding statements) ∧
        schemaOfFound declaration found = schemaOf declaration comparable coding statements := by
  obtain ⟨entries, rfl, rfl, hnodup⟩ := (collect_eq_ok_iff (by simp)).1 h
  obtain ⟨comparable, coding, statements, hperm⟩ :=
    exists_perm_of_nodup (by simpa using hcount) hnodup
  exact ⟨comparable, coding, statements, hperm.map labelled, schemaOfFound_eq hnodup hperm⟩

/-- **The interpretation of a directive attached to a type, whose arguments are the three in some
order, depends on their values alone.** Every check before the values is passed. -/
theorem interpret_of_perm {directive : Attribute} {declaration : Declaration}
    {comparable coding statements : Expression}
    (hattached : declaration.kind ∈ Mistake.attachableKinds)
    (hperm : directive.arguments.Perm (threeArguments comparable coding statements)) :
    interpret directive declaration = schemaOf declaration comparable coding statements := by
  obtain ⟨entries, hentries, hlength, hnodup⟩ :=
    exists_entries_of_labels (hperm.map Argument.label)
  have hthree : entries.Perm [(.comparableMembers, comparable), (.codingMembers, coding),
      (.uselessInitializations, statements)] := by
    refine (List.map_perm_map_iff labelled_injective).1 ?_
    rw [← hentries]
    exact hperm
  have hfound : collect directive.name 0 [] directive.arguments = .ok entries :=
    (collect_eq_ok_iff (by simp)).2 ⟨entries, hentries, by simp, hnodup⟩
  rw [interpret_eq, if_neg (not_not.2 hattached), if_neg (by simp [hentries, hlength]), hfound]
  exact schemaOfFound_eq hnodup hthree

/-- **A directive has a schema just when it states some content properly, and then it has the schema
of that content.** From left to right the content is put together from what each stage has found;
from right to left every stage is passed. -/
theorem interpret_eq_ok_iff {directive : Attribute} {declaration : Declaration} {schema : Schema} :
    interpret directive declaration = .ok schema ↔
      ∃ content : Content, content.StatedBy directive declaration ∧
        schema = content.schema declaration := by
  rw [interpret_eq]
  constructor
  · intro h
    split at h
    · cases h
    rename_i hkind
    split at h
    · cases h
    rename_i hcount
    -- All checks have passed; the content is what they have found on the way.
    obtain ⟨found, hfound, h⟩ := Outcome.bind_eq_ok_iff.1 h
    obtain ⟨comparable, coding, statements, hperm, hschema⟩ :=
      exists_threeArguments declaration (not_not.1 hcount) (orMistake_eq_ok_iff.1 hfound)
    rw [hschema] at h
    obtain ⟨content, rfl, rfl, rfl, hdescribed, hnames, rfl⟩ := schemaOf_eq_ok_iff.1 h
    obtain ⟨hdistinct, hapart⟩ := nodup_names_iff.1 hnames
    obtain ⟨hcomparable, hcoding, hstatements⟩ := mem_iff_of_perm hperm
    refine ⟨content, ⟨mem_attachableKinds_iff.1 (not_not.1 hkind), hperm.map Argument.label,
      ?_, ?_, ?_, hdescribed, hdistinct, hapart⟩, rfl⟩
    · rintro ⟨_, e⟩ hargument rfl
      exact (hcomparable e).1 hargument
    · rintro ⟨_, e⟩ hargument rfl
      exact (hcoding e).1 hargument
    · rintro ⟨_, e⟩ hargument rfl
      exact (hstatements e).1 hargument
  · rintro ⟨content, hstated, rfl⟩
    -- The arguments are the three in some order, which the interpretation does not mind.
    obtain ⟨comparable, coding, statements, hperm⟩ := exists_perm_of_labels hstated.labels
    obtain ⟨hmemComparable, hmemCoding, hmemStatements⟩ := mem_iff_of_perm hperm
    have hcomparable := hstated.comparable _ ((hmemComparable comparable).2 rfl) rfl
    have hcoding := hstated.coding _ ((hmemCoding coding).2 rfl) rfl
    have hstatements := hstated.statements _ ((hmemStatements statements).2 rfl) rfl
    rw [← interpret_eq, interpret_of_perm (mem_attachableKinds_iff.2 hstated.attached) hperm]
    exact schemaOf_eq_ok_iff.2 ⟨content, hcomparable, hcoding, hstatements, hstated.described,
      nodup_names_iff.2 ⟨hstated.distinct, hstated.apart⟩, rfl⟩

/-- **A directive without a schema has a mistake of its author's.** Stage by stage: each fails with
a mistake or not at all, given that the ones before it were passed. -/
theorem mistake_of_interpret {directive : Attribute} {declaration : Declaration}
    {rejection : Rejection} (h : interpret directive declaration = .error rejection) :
    ∃ mistake, rejection = .mistake mistake := by
  rw [interpret_eq] at h
  split at h
  · cases h
    exact ⟨_, rfl⟩
  split at h
  · cases h
    exact ⟨_, rfl⟩
  rename_i hcount
  rcases Outcome.bind_eq_error_iff.1 h with h | ⟨found, hfound, h⟩
  · exact mistake_of_orMistake h
  obtain ⟨_, _, _, _, hschema⟩ :=
    exists_threeArguments declaration (not_not.1 hcount) (orMistake_eq_ok_iff.1 hfound)
  rw [hschema] at h
  exact mistake_of_schemaOf h

/-- **Interpreting a directive either gives the schema of what it states or names a mistake.** There
is a schema just when some content is stated properly, the schema holds that content and nothing
else, and no argument looked for in vain, no faulty field and no faulty schema ever comes out. -/
theorem interpret_schema_or_mistake (directive : Attribute) (declaration : Declaration) :
    (∀ schema, interpret directive declaration = .ok schema ↔
      ∃ content : Content, content.StatedBy directive declaration ∧
        schema = content.schema declaration) ∧
    ((∃ schema, interpret directive declaration = .ok schema) ∨
      ∃ mistake, interpret directive declaration = .error (.mistake mistake)) := by
  refine ⟨fun schema => interpret_eq_ok_iff, ?_⟩
  cases houtcome : interpret directive declaration with
  | ok schema => exact Or.inl ⟨schema, rfl⟩
  | error rejection =>
    obtain ⟨mistake, rfl⟩ := mistake_of_interpret houtcome
    exact Or.inr ⟨mistake, rfl⟩

/-- Where no two arguments have one label, the label tells the expression. Used for directives that
were made by hand, whose conditions speak of all arguments with a label. -/
theorem expression_eq_of_label {arguments : List Argument}
    (hdistinct : (arguments.map Argument.label).Nodup) {argument : Argument} {label : Option Text}
    {e : Expression} (hargument : argument ∈ arguments) (hlabel : argument.label = label)
    (hmem : ⟨label, e⟩ ∈ arguments) : argument.expression = e := by
  rw [List.inj_on_of_nodup_map hdistinct hargument hmem hlabel]

/-- The directive that states a content, one part after the other, in the order of the labels. -/
def Content.directive (content : Content) : Attribute where
  name := directiveName
  arguments :=
    [⟨some ArgumentLabel.comparableMembers.word, .array (content.comparable.map .plain)⟩,
      ⟨some ArgumentLabel.codingMembers.word, .array (content.descriptors.map .plain)⟩,
      ⟨some ArgumentLabel.uselessInitializations.word, .plain content.statements⟩]

/-- Every content that can be stated at all is stated by the directive made for it. So the
hypotheses of the theorems on schemas can be met, with any names and statements. -/
theorem interpret_directive {content : Content} {declaration : Declaration}
    (hattached : declaration.kind ∈ Mistake.attachableKinds)
    (hdescribed : List.Forall₂ (fun descriptor field => readField descriptor = .ok field)
      content.descriptors content.own)
    (hnodup : ((content.own ++ Field.implicit).map Field.name).Nodup) :
    interpret content.directive declaration = .ok (content.schema declaration) := by
  obtain ⟨hdistinct, hapart⟩ := nodup_names_iff.1 hnodup
  have hlabels : (content.directive.arguments.map Argument.label).Nodup := by
    show ([some ArgumentLabel.comparableMembers.word, some ArgumentLabel.codingMembers.word,
      some ArgumentLabel.uselessInitializations.word] : List (Option Text)).Nodup
    decide
  refine interpret_eq_ok_iff.2 ⟨content, ⟨mem_attachableKinds_iff.1 hattached, List.Perm.refl _, ?_,
    ?_, ?_, hdescribed, hdistinct, hapart⟩, rfl⟩
  · intro argument hargument hlabel
    exact expression_eq_of_label hlabels hargument hlabel (by simp [Content.directive])
  · intro argument hargument hlabel
    exact expression_eq_of_label hlabels hargument hlabel (by simp [Content.directive])
  · intro argument hargument hlabel
    exact expression_eq_of_label hlabels hargument hlabel (by simp [Content.directive])

/-- A content that describes no field. It can be stated about every type, as there is no name that
could be taken. -/
def Content.fieldless (comparable : List Text) (statements : Text) : Content where
  comparable := comparable
  descriptors := []
  own := []
  statements := statements

theorem interpret_fieldless (comparable : List Text) (statements : Text) (declaration : Declaration)
    (hattached : declaration.kind ∈ Mistake.attachableKinds) :
    interpret (Content.fieldless comparable statements).directive declaration =
      .ok ((Content.fieldless comparable statements).schema declaration) :=
  interpret_directive hattached .nil
    (nodup_names_iff.2 ⟨List.nodup_nil, fun _ h => absurd h List.not_mem_nil⟩)

end Directive

end MemberSynthesis
