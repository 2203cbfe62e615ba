import MemberSynthesis.Proofs.Member.Agreement
import MemberSynthesis.Proofs.Text.Margin

/-!
# The statements for the initializers

The author's statements go to the end of three initializers, line by line. Their margin is taken
off, lines of nothing but spaces and tabs are emptied, and line feeds at the two ends are dropped;
anything else in the text is the author's own and is to get through as it is.

**It gets through unchanged just when line feeds are the only line ends of the text**
(`statements_of_interpret`). The text is first treated as feed lines and then cut into lines, and a
carriage return, a form feed or a line separator ends one of these but none of those: it is lost,
and breaks the statement it stands in, even inside a string literal (`statements_lineSeparator`).

The statement of the theorem has four parts: that the text is the one the directive gives under its
label; that its lines end each of the three initializers, behind those of the fields; that they are
the text without its margin just under the condition; and that a text of one line is written as it
is just when it has no line end at all. The margin is any that the text has (`Text.IsMargin`) and
not the computed one, so nothing is said in terms of the function that takes it off.
-/

set_option autoImplicit false

namespace MemberSynthesis

namespace Schema

/-- The kinds of initializer. These are the members that the statements are written into; no other
member sees them. -/
def initializerKinds : List MemberKind := [.decodingInit, .emptyInit, .memberwiseInit]

/-- The lines of an initializer that come from the fields: one for each writable field. In the
decoding initializer, the line that opens the container and an empty one stand before them. -/
def fieldLines (schema : Schema) : MemberKind → List Text
  | .decodingInit => Member.decodingContainer :: [] :: schema.writable.map Member.decodeLine
  | .emptyInit => schema.writable.map Member.defaultLine
  | .memberwiseInit => schema.writable.map Member.assignmentLine
  | _ => []

/-- **Each initializer ends with the lines of the statements**, after those of the fields. The
header depends on the kind and on whether the type is a class, and is of no interest here. -/
theorem WellMade.hasBlock_initializer {schema : Schema} (h : schema.WellMade) {kind : MemberKind}
    (hkind : kind ∈ initializerKinds) :
    ∃ header, schema.HasBlock kind header (schema.fieldLines kind ++ schema.initializerLines) := by
  simp only [initializerKinds, List.mem_cons, List.not_mem_nil, or_false] at hkind
  rcases hkind with rfl | rfl | rfl
  · exact ⟨_, h.hasBlock_decodingInit⟩
  · exact ⟨_, h.hasBlock_emptyInit⟩
  · exact ⟨_, h.hasBlock_memberwiseInit⟩

/-- The lines of the statements are those of the text without its margin, whatever margin it has. -/
theorem initializerLines_eq (schema : Schema) {margin : Text}
    (h : schema.initializerText.IsMargin margin) :
    schema.initializerLines = Text.lines (schema.initializerText.unmargined margin) := by
  rw [initializerLines, h.unmargined_eq]

end Schema

namespace Directive

/-- The text of the statements is the plain string that the directive gives for it. Nothing has been
done to it before the schema is made. -/
theorem initializerText_of_interpret {directive : Attribute} {declaration : Declaration}
    {schema : Schema} (h : interpret directive declaration = .ok schema) :
    ⟨some ArgumentLabel.uselessInitializations.word, .plain schema.initializerText⟩ ∈
      directive.arguments := by
  obtain ⟨content, hstated, rfl⟩ := interpret_eq_ok_iff.1 h
  obtain ⟨comparable, coding, statements, hperm⟩ := exists_perm_of_labels hstated.labels
  obtain ⟨_, _, hstatements⟩ := mem_iff_of_perm hperm
  have hmem := (hstatements statements).2 rfl
  have hvalue : statements = .plain content.statements := hstated.statements _ hmem rfl
  rwa [hvalue] at hmem

/-- **What becomes of the statements.** Each of the three initializers ends with their lines. These
are the text of the directive, with its margin taken off and without the line feeds at its ends,
just when that text has no line end but line feeds. And a text of one line, with no space or tab at
its start, is one line of every initializer just when it has no line end at all. -/
theorem statements_of_interpret {directive : Attribute} {declaration : Declaration}
    {schema : Schema} (h : interpret directive declaration = .ok schema) :
    ⟨some ArgumentLabel.uselessInitializations.word, .plain schema.initializerText⟩ ∈
        directive.arguments ∧
      (∀ kind ∈ Schema.initializerKinds, ∃ header,
        schema.HasBlock kind header (schema.fieldLines kind ++ schema.initializerLines)) ∧
      (∃ margin, schema.initializerText.IsMargin margin) ∧
      (∀ margin, schema.initializerText.IsMargin margin →
        schema.initializerLines = Text.lines (schema.initializerText.unmargined margin) ∧
          (Text.stacked schema.initializerLines = schema.initializerText.unmargined margin ↔
            ∀ c ∈ schema.initializerText, c.isLineEnd → c = '\n')) ∧
      (schema.initializerText ≠ [] → CodePoint.scalar '\n' ∉ schema.initializerText →
        (∀ c ∈ schema.initializerText.head?, c ≠ ' ' ∧ c ≠ '\t') →
        (schema.initializerLines = [schema.initializerText] ↔
          ∀ c ∈ schema.initializerText, c.isLineEnd = false)) := by
  refine ⟨initializerText_of_interpret h, ?_, ⟨_, Text.isMargin_margin _⟩, ?_, ?_⟩
  · intro kind hkind
    exact (Schema.wellMade_of_interpret h).hasBlock_initializer hkind
  · intro margin hmargin
    have hlines := schema.initializerLines_eq hmargin
    rw [hlines]
    exact ⟨rfl, hmargin.stacked_lines_eq_iff⟩
  · intro hne hfeed hstart
    have hself : schema.initializerText.withoutMargin.stripFeeds = schema.initializerText := by
      apply Text.stripFeeds_withoutMargin_eq_self hfeed
      intro c hc
      rw [Bool.eq_false_iff, ne_eq, CodePoint.isIndent_iff, not_or]
      exact hstart c hc
    rw [Schema.initializerLines, hself]
    exact Text.lines_eq_singleton_iff hne

/-- Two statements, indented and with a line of blanks between them. The margin is that of the
first; the blank line is emptied and the second keeps the two spaces that it has more. -/
theorem statements_indented :
    ∃ schema, interpret
          (Content.fieldless [] "\n    open()\n \t\n      reset()\n").directive
          ⟨.classType, "Recipe"⟩ = .ok schema ∧
        schema.initializerText.IsMargin "    " ∧
        Text.stacked schema.initializerLines = schema.initializerText.unmargined "    " ∧
        schema.initializerText.unmargined "    " = "open()\n\n  reset()" := by
  have hinterpret := interpret_fieldless [] "\n    open()\n \t\n      reset()\n"
    ⟨.classType, "Recipe"⟩ (by decide)
  have hmargin : Text.IsMargin "\n    open()\n \t\n      reset()\n" "    " :=
    Text.isMargin_margin "\n    open()\n \t\n      reset()\n"
  obtain ⟨_, _, _, hunchanged, _⟩ := statements_of_interpret hinterpret
  refine ⟨_, hinterpret, hmargin, ?_, by decide⟩
  exact (hunchanged _ hmargin).2.2 (by decide)

/-- A line separator inside a string literal breaks the statement in two. It is no line feed, so
nothing is taken off around it; but it ends a line, and the two halves stand in each initializer. -/
theorem statements_lineSeparator :
    ∃ schema, interpret (Content.fieldless [] "label = \"a\u2028b\"").directive
          ⟨.classType, "Recipe"⟩ = .ok schema ∧
        schema.initializerText = "label = \"a\u2028b\"" ∧ schema.initializerText.IsMargin [] ∧
        schema.initializerText.unmargined [] = schema.initializerText ∧
        Text.stacked schema.initializerLines = "label = \"a\nb\"" ∧
        Text.stacked schema.initializerLines ≠ schema.initializerText.unmargined [] ∧
        ∀ kind ∈ Schema.initializerKinds, ∃ header,
          schema.HasBlock kind header (schema.fieldLines kind ++
            (["label = \"a", "b\""] : List Text)) := by
  have hinterpret := interpret_fieldless [] "label = \"a\u2028b\"" ⟨.classType, "Recipe"⟩
    (by decide)
  refine ⟨_, hinterpret, rfl, Text.isMargin_margin "label = \"a\u2028b\"", by decide, by decide,
    by decide, ?_⟩
  intro kind hkind
  exact (Schema.wellMade_of_interpret hinterpret).hasBlock_initializer hkind

end Directive

end MemberSynthesis
