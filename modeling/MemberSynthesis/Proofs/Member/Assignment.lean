import Mathlib.Data.List.Count
import MemberSynthesis.Proofs.Member.Body
import MemberSynthesis.Proofs.Member.Parameter

/-!
# The assignments of the memberwise initializer

The text of the memberwise initializer is taken apart into its lines. They are the ones it was
written with (`feedLines_memberwiseInit`): a header of several lines, one for each parameter, then
one line for each writable field, and then the statements. Among them **every writable field is
assigned once**, apart from what the statements of the schema assign (`count_assignmentLine`).

To count a line is to compare it with all others. The lines of the fields differ because the names
do, and an assignment tells its name twice. A parameter is never an assignment, since it has a colon
where that has none, and the lines that open and close the header are no assignments either. The
statements are the author's, and may assign a field once more; how often they do is left in the
statement as a count of its own.
-/

set_option autoImplicit false

namespace MemberSynthesis

namespace Member

theorem assignmentLine_inj {name other : Text}
    (h : ("self." : Text) ++ name ++ " = " ++ name = "self." ++ other ++ " = " ++ other) :
    name = other := by
  have hlength := congrArg List.length h
  simp only [List.length_append] at hlength
  exact (List.append_inj' h (by omega)).2

theorem nodup_assignmentLines {schema : Schema} (hmade : schema.WellMade) :
    (schema.writable.map assignmentLine).Nodup := by
  have hlines : schema.writable.map assignmentLine =
      (schema.writable.map Field.name).map fun name =>
        ("self." : Text) ++ name ++ " = " ++ name := by
    rw [List.map_map]
    rfl
  rw [hlines]
  exact hmade.nodup_writable.map fun _ _ => assignmentLine_inj

theorem indented_injective : Function.Injective (Text.indented indent) :=
  Function.LeftInverse.injective (Text.drop_indented indent)

section Spelled

variable {field : Field}

theorem feed_not_mem_parameter (h : field.IsSpelled) : CodePoint.scalar '\n' ∉ parameter field := by
  have hname : CodePoint.scalar '\n' ∉ field.name := Text.not_mem_of_isIdentifier h.name (by decide)
  have htype : CodePoint.scalar '\n' ∉ field.typeName :=
    Descriptor.not_mem_of_isType h.typeName (by decide)
  have hending : CodePoint.scalar '\n' ∉ parameterEnding field := by
    rw [parameterEnding]
    split <;> decide
  rw [parameter_eq]
  simp only [List.mem_append, not_or]
  exact ⟨hname, by decide, htype, hending⟩

theorem not_mem_assignmentLine (h : field.IsSpelled) {c : CodePoint} (hword : c.isWord = false)
    (hself : c ∉ ("self." : Text)) (hequals : c ∉ (" = " : Text)) : c ∉ assignmentLine field := by
  have hname : c ∉ field.name := Text.not_mem_of_isIdentifier h.name hword
  simp only [assignmentLine, List.mem_append, not_or]
  exact ⟨⟨⟨hself, hname⟩, hequals⟩, hname⟩

end Spelled

/-- Every line of the list holds a parameter, moved right, and an end without a line feed: a comma,
or nothing behind the last one. -/
theorem exists_of_mem_parameterLines {line : Text} : ∀ {parameters : List Text},
    line ∈ parameterLines parameters →
      ∃ text ∈ parameters, ∃ ending, line = indent ++ text ++ ending ∧
        CodePoint.scalar '\n' ∉ ending := by
  intro parameters
  induction parameters using parameterLines.induct with
  | case1 => exact fun h => absurd h List.not_mem_nil
  | case2 last =>
    intro h
    rw [parameterLines, List.mem_singleton] at h
    exact ⟨last, List.mem_cons_self, [], by rw [h, List.append_nil], List.not_mem_nil⟩
  | case3 first next more ih =>
    intro h
    rw [parameterLines] at h
    rcases List.mem_cons.1 h with rfl | h
    · exact ⟨first, List.mem_cons_self, ",", rfl, by decide⟩
    · obtain ⟨text, htext, hline⟩ := ih h
      exact ⟨text, List.mem_cons_of_mem first htext, hline⟩

/-! ## The lines

The header is the only one that takes several lines. Everything behind it is a block like any
other. -/

/-- The lines of the header: one that opens the list, one for each parameter, and one that closes
the list and opens the body. -/
def headerLines (fields : List Field) : List Text :=
  ("init(" : Text) :: parameterLines (fields.map parameter) ++ [opened ")"]

theorem headerLines_ne_nil (fields : List Field) : headerLines fields ≠ [] := List.cons_ne_nil _ _

theorem mem_headerLines {fields : List Field} {line : Text} (h : line ∈ headerLines fields) :
    line = "init(" ∨ line ∈ parameterLines (fields.map parameter) ∨ line = opened ")" := by
  rwa [headerLines, List.mem_append, List.mem_cons, List.mem_singleton, or_assoc] at h

theorem feed_not_mem_headerLines {fields : List Field} (h : ∀ field ∈ fields, field.IsSpelled)
    {line : Text} (hline : line ∈ headerLines fields) : CodePoint.scalar '\n' ∉ line := by
  rcases mem_headerLines hline with rfl | hline | rfl
  · decide
  · obtain ⟨text, htext, ending, rfl, hending⟩ := exists_of_mem_parameterLines hline
    obtain ⟨field, hfield, rfl⟩ := List.mem_map.1 htext
    simp only [List.mem_append, not_or]
    exact ⟨⟨by decide, feed_not_mem_parameter (h field hfield)⟩, hending⟩
  · decide

theorem feedLines_memberwiseHeader {fields : List Field} (h : ∀ field ∈ fields, field.IsSpelled) :
    (memberwiseHeader fields).feedLines = headerLines fields :=
  Text.feedLines_stacked (headerLines_ne_nil fields) fun _ hline => feed_not_mem_headerLines h hline

/-- **The lines of the memberwise initializer**: those of the header, then the assignments and the
statements one step to the right, and the closing brace. -/
theorem feedLines_memberwiseInit {schema : Schema} (hmade : schema.WellMade) :
    (memberwiseInit schema).text.feedLines =
      headerLines schema.writable ++
        ((schema.writable.map assignmentLine ++ schema.initializerLines).map
          (Text.indented indent) ++
          [("\x7d" : Text)]) := by
  have hspelled : ∀ field ∈ schema.writable, field.IsSpelled :=
    fun field hfield => hmade.isSpelled_of_mem_writable hfield
  rw [memberwiseInit, feedLines_braced, feedLines_memberwiseHeader hspelled]
  intro line hline
  rcases List.mem_append.1 hline with hline | hline
  · obtain ⟨field, hfield, rfl⟩ := List.mem_map.1 hline
    exact not_mem_assignmentLine (hspelled field hfield) (by decide) (by decide) (by decide)
  · exact Text.not_mem_of_mem_lines (by decide) hline

theorem assignmentLine_not_mem_headerLines {fields : List Field} {field : Field}
    (hfield : field.IsSpelled) :
    Text.indented indent (assignmentLine field) ∉ headerLines fields := by
  have hindented : Text.indented indent (assignmentLine field) = indent ++ assignmentLine field :=
    if_neg (List.cons_ne_nil _ _)
  rw [hindented]
  intro h
  rcases mem_headerLines h with h | h | h
  · cases h
  · obtain ⟨text, htext, ending, hline, _⟩ := exists_of_mem_parameterLines h
    obtain ⟨other, _, rfl⟩ := List.mem_map.1 htext
    rw [List.append_assoc, List.append_cancel_left_eq] at hline
    have hcolon : CodePoint.scalar ':' ∈ assignmentLine field := by
      rw [hline, parameter_eq]
      simp only [List.mem_append]
      exact .inl (.inr (.inl (by decide)))
    exact not_mem_assignmentLine hfield (by decide) (by decide) (by decide) hcolon
  · cases h

/-- **Every writable field is assigned in one line**, besides those of the statements. Neither the
header nor another field has that line. -/
theorem count_assignmentLine {schema : Schema} (hmade : schema.WellMade) {field : Field}
    (hfield : field ∈ schema.writable) :
    (memberwiseInit schema).text.feedLines.count (Text.indented indent (assignmentLine field)) =
      1 + schema.initializerLines.count (assignmentLine field) := by
  have hheader : (headerLines schema.writable).count (Text.indented indent (assignmentLine field)) =
      0 :=
    List.count_eq_zero.2
      (assignmentLine_not_mem_headerLines (hmade.isSpelled_of_mem_writable hfield))
  have hbrace : [("\x7d" : Text)].count (Text.indented indent (assignmentLine field)) = 0 :=
    List.count_eq_zero.2 fun h => by cases List.mem_singleton.1 h
  have hone : (schema.writable.map assignmentLine).count (assignmentLine field) = 1 :=
    List.count_eq_one_of_mem (nodup_assignmentLines hmade) (List.mem_map_of_mem hfield)
  rw [feedLines_memberwiseInit hmade, List.count_append, List.count_append, hheader, hbrace,
    List.count_map_of_injective _ _ indented_injective, List.count_append, hone, Nat.zero_add,
    Nat.add_zero]

end Member

end MemberSynthesis
