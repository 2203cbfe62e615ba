import Mathlib.Data.List.DropRight
import MemberSynthesis.Generation
import MemberSynthesis.Proofs.Directive.Spelling
import MemberSynthesis.Proofs.Schema.WellMade
import MemberSynthesis.Proofs.Source.Writing

/-!
# Writing a schema back as source

A schema holds all that its directive said. `Schema.source` writes the directive anew: the
descriptors of the fields before the implicit ones, the names compared before the last one, and the
statements, each as a string literal with a backslash before every quote and backslash, and `\n` for
a line feed. **Reading and interpreting this source gives the schema again**, in every component
(`schema_source`).

The original text is not restored, nor could it be: the order of the arguments, the blanks around
them and the way a descriptor was spaced leave no trace in the schema. What is said is that nothing
*else* is lost between the source and the schema.

Three round trips make it up. A descriptor is read as the field it was written for
(`Descriptor.field?_written`), a snippet is read as it was written (`Snippet.read_written`), and a
directive that states a content has the schema of that content (`interpret_eq_ok_iff`). Between them
stands the fact that the new directive states what the old one did, with other descriptors for the
same fields (`statedBy_sourceDirective`).
-/

set_option autoImplicit false

namespace MemberSynthesis

namespace Schema

/-! ## The source of a schema

The implicit fields are six, so the own ones are what is left without the last six; the name is
compared last, so the given names are what is left without the last one. -/

/-- The fields of its own that the directive of a schema describes: all but the last six, which are
the implicit ones. -/
def ownFields (schema : Schema) : List Field := schema.codingFields.rdrop 6

/-- The array of some texts as string literals. -/
def writtenList (texts : List Text) : Text := (Literal.list (texts.map Literal.text)).written

/-- **The source of a schema**: the directive that describes it, and the head of the declaration
that it is attached to. -/
def source (schema : Schema) : Text :=
  "@UsefulClass(codingMembers: " ++ writtenList (schema.ownFields.map Descriptor.written) ++
    ", comparableMembers: " ++ writtenList schema.comparableFields.dropLast ++
    ", uselessInitializations: " ++ (Literal.text schema.initializerText).written ++ ") " ++
    schema.declarationKind.keyword ++ " " ++ schema.typeName

/-- The arguments of the directive in the source, in the order in which they are written: with the
labels that the directive expects, and nothing but strings and arrays of strings. -/
def sourceArguments (schema : Schema) : List LiteralArgument :=
  [⟨some ArgumentLabel.codingMembers.word,
      .list ((schema.ownFields.map Descriptor.written).map .text), by decide⟩,
    ⟨some ArgumentLabel.comparableMembers.word,
      .list (schema.comparableFields.dropLast.map .text), by decide⟩,
    ⟨some ArgumentLabel.uselessInitializations.word, .text schema.initializerText, by decide⟩]

/-- The source is a snippet as it is written, with one directive and without anything between it and
the declaration. So the round trip of snippets applies. -/
theorem source_eq_written (schema : Schema) :
    schema.source =
      Snippet.written directiveName schema.sourceArguments
        ⟨schema.declarationKind, schema.typeName⟩ := by
  have harguments : schema.sourceArguments.map LiteralArgument.written =
      ["codingMembers: " ++ writtenList (schema.ownFields.map Descriptor.written),
        "comparableMembers: " ++ writtenList schema.comparableFields.dropLast,
        "uselessInitializations: " ++ (Literal.text schema.initializerText).written] := rfl
  rw [source, Snippet.written, harguments, Text.joined_cons _ _ (List.cons_ne_nil _ _),
    Text.joined_cons _ _ (List.cons_ne_nil _ _), Text.joined_singleton]
  simp only [List.append_assoc]
  rfl

end Schema

/-! ## Reading the source

The content that the new directive states has the same own fields, names and statements as the one
that was interpreted. Only the descriptors differ: they are written without the author's blanks. -/

namespace Directive

/-- The fields before the implicit ones are those that the descriptors describe, whatever the
declaration. -/
theorem Content.ownFields_schema (content : Content) (declaration : Declaration) :
    (content.schema declaration).ownFields = content.own :=
  List.rdrop_append_length

theorem Content.dropLast_comparableFields (content : Content) (declaration : Declaration) :
    (content.schema declaration).comparableFields.dropLast = content.comparable :=
  List.dropLast_concat

/-- The directive of the source of a schema, as it is after reading. -/
def sourceDirective (schema : Schema) : Attribute :=
  ⟨directiveName, schema.sourceArguments.map LiteralArgument.argument⟩

theorem sourceDirective_schema (content : Content) (declaration : Declaration) :
    sourceDirective (content.schema declaration) =
      ⟨directiveName,
        [⟨some ArgumentLabel.codingMembers.word,
            .array ((content.own.map Descriptor.written).map .plain)⟩,
          ⟨some ArgumentLabel.comparableMembers.word, .array (content.comparable.map .plain)⟩,
          ⟨some ArgumentLabel.uselessInitializations.word, .plain content.statements⟩]⟩ := by
  have hplain : ∀ texts : List Text,
      (Literal.list (texts.map .text)).expression = .array (texts.map .plain) := by
    intro texts
    rw [Literal.expression, Literal.expressions_eq_map, List.map_map]
    rfl
  simp only [sourceDirective, Schema.sourceArguments, List.map_cons, List.map_nil,
    LiteralArgument.argument, hplain, Content.ownFields_schema, Content.dropLast_comparableFields]
  rfl

/-- **The directive of the source states what the schema holds.** Each own field describes itself
when it is written, and the other conditions on a content do not look at the descriptors. -/
theorem statedBy_sourceDirective {content : Content} {directive : Attribute}
    {declaration : Declaration} (h : content.StatedBy directive declaration) :
    Content.StatedBy { content with descriptors := content.own.map Descriptor.written }
      (sourceDirective (content.schema declaration)) declaration := by
  have hlabels :
      ((sourceDirective (content.schema declaration)).arguments.map Argument.label).Nodup := by
    show ([some ArgumentLabel.codingMembers.word, some ArgumentLabel.comparableMembers.word,
      some ArgumentLabel.uselessInitializations.word] : List (Option Text)).Nodup
    decide
  rw [sourceDirective_schema] at hlabels ⊢
  refine ⟨h.attached, List.Perm.swap _ _ _, ?_, ?_, ?_, ?_, h.distinct, h.apart⟩
  · intro argument hargument hlabel
    exact expression_eq_of_label hlabels hargument hlabel (by simp)
  · intro argument hargument hlabel
    exact expression_eq_of_label hlabels hargument hlabel (by simp)
  · intro argument hargument hlabel
    exact expression_eq_of_label hlabels hargument hlabel (by simp)
  · rw [List.forall₂_map_left_iff, List.forall₂_same]
    intro field hfield
    obtain ⟨hspelled, hwritable⟩ := isSpelled_of_described h.described field hfield
    exact readField_eq_ok_iff.2 (Descriptor.field?_written hspelled hwritable)

/-- **The source of a schema gives the schema again**: it is read, its directive is interpreted, and
all of the schema comes back, for every schema of a declaration whose name is an identifier. -/
theorem schema_source {directive : Attribute} {declaration : Declaration} {schema : Schema}
    (h : interpret directive declaration = .ok schema) (hname : declaration.name.isIdentifier) :
    Source.schema directiveName schema.source = .ok schema := by
  obtain ⟨content, hstated, rfl⟩ := interpret_eq_ok_iff.1 h
  have hread : Snippet.read directiveName (content.schema declaration).source =
      .ok ⟨sourceDirective (content.schema declaration), declaration⟩ := by
    have hwritten :=
      Snippet.read_written (show directiveName.getLast?.any CodePoint.isWord by decide)
      (content.schema declaration).sourceArguments hname Text.endsWord_nil
    rw [List.append_nil] at hwritten
    rw [Schema.source_eq_written]
    exact hwritten
  have hinterpret : interpret (sourceDirective (content.schema declaration)) declaration =
      .ok (content.schema declaration) :=
    interpret_eq_ok_iff.2 ⟨_, statedBy_sourceDirective hstated, rfl⟩
  rw [Source.schema, hread]
  dsimp only
  rw [hinterpret]

/-- A type that ends with a comma and is optional, and strings that need escapes: the cases in which
writing something else than the descriptor itself would be noticed. -/
def Content.awkward : Content where
  comparable := ["\"a\""]
  descriptors := [" tags : Map<Int, String>, ? "]
  own := [⟨"tags", "Map<Int, String>,", true, false⟩]
  statements := "a\\\n"

theorem schema_source_awkward :
    ∃ schema, interpret Content.awkward.directive ⟨.classType, "Recipe"⟩ = .ok schema ∧
      schema.source = ("@UsefulClass(codingMembers: [\"tags: Map<Int, String>,?\"], " : Text) ++
        "comparableMembers: [\"\\\"a\\\"\"], uselessInitializations: \"a\\\\\\n\") class Recipe" ∧
      Source.schema directiveName schema.source = .ok schema := by
  have hinterpret : interpret Content.awkward.directive ⟨.classType, "Recipe"⟩ =
      .ok (Content.awkward.schema ⟨.classType, "Recipe"⟩) :=
    interpret_directive (by decide) (.cons (by decide +kernel) .nil) (by decide +kernel)
  exact ⟨_, hinterpret, by decide +kernel, schema_source hinterpret (by decide)⟩

end Directive

end MemberSynthesis
