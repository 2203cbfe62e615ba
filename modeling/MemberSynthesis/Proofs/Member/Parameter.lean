import MemberSynthesis.Member.Construction
import MemberSynthesis.Proofs.Schema.WellMade
import MemberSynthesis.Proofs.Source.Nesting

/-!
# One parameter

The header of the memberwise initializer opens a bracket, gives every writable field a line of its
own, and closes the bracket. A line holds the name of a field and its type, and **what stands around
the type opens and closes no bracket** (`nesting_parameterLine`), since a name is made of code
points of words. So whatever a scanner does in a line, it does because of the type.

A line is taken together with the line feed before it and without the comma behind it, since the
commas are what the list is split at; `parameterList` is the text between the brackets, written so.
The ending of an optional parameter gives it a default, and is free of brackets and commas as well.
-/

set_option autoImplicit false

namespace MemberSynthesis

namespace Member

/-! ## The text of the header -/

/-- The line of a parameter, without the comma after it. -/
def parameterLine (field : Field) : Text := "\n" ++ indent ++ parameter field

/-- What follows the first parameter, up to the closing bracket: a comma before every other line,
and a line feed behind the last. -/
def laterParameters : List Field → Text
  | [] => "\n"
  | field :: more => "," ++ (parameterLine field ++ laterParameters more)

theorem stacked_parameterLines {last : Text} {more : List Field} : ∀ {field : Field},
    Text.stacked (parameterLines ((field :: more).map parameter) ++ [last]) =
      indent ++ parameter field ++ (laterParameters more ++ last) := by
  induction more with
  | nil =>
    intro field
    show Text.stacked [indent ++ parameter field, last] = _
    rw [Text.stacked_cons (List.cons_ne_nil _ _)]
    simp [Text.stacked, Text.joined, List.intercalate]
    rfl
  | cons next more ih =>
    intro field
    show Text.stacked ((indent ++ parameter field ++ ",") ::
      (parameterLines ((next :: more).map parameter) ++ [last])) = _
    rw [Text.stacked_cons (by simp), ih]
    simp only [laterParameters, parameterLine, List.append_assoc]
    rfl

/-- What stands between the brackets of the initializer. Without fields it would be a line feed; but
there always are some. -/
def parameterList : List Field → Text
  | [] => "\n"
  | field :: more => parameterLine field ++ laterParameters more

theorem memberwiseHeader_eq (fields : List Field) :
    memberwiseHeader fields = "init(" ++ (parameterList fields ++ opened ")") := by
  cases fields with
  | nil => rfl
  | cons field more =>
    rw [memberwiseHeader, List.cons_append, Text.stacked_cons (by simp), stacked_parameterLines]
    simp only [parameterList, parameterLine, List.append_assoc]
    rfl

/-! ## One parameter -/

/-- What stands in a parameter before the type. -/
def parameterStart (field : Field) : Text := field.name ++ ": "

/-- What stands in a parameter after the type. -/
def parameterEnding (field : Field) : Text := if field.nullable then "? = nil" else []

theorem parameter_eq (field : Field) :
    parameter field = field.name ++ (": " ++ (field.typeName ++ parameterEnding field)) := by
  rw [parameter, parameterEnding, Field.writtenType]
  split
  · simp only [List.append_assoc]
    rfl
  · rw [List.append_nil, List.append_assoc]

theorem parameterLine_eq (field : Field) :
    parameterLine field =
      ("\n" ++ indent ++ field.name ++ ": ") ++ (field.typeName ++ parameterEnding field) := by
  rw [parameterLine, parameter_eq]
  simp only [List.append_assoc]

section Spelled

variable {field : Field}

theorem isPlain_of_mem_start (h : field.IsSpelled) :
    ∀ c ∈ ("\n" : Text) ++ indent ++ field.name ++ ": ", Opening.isPlain c ∧ c ≠ ',' := by
  have hblank : ∀ c ∈ ("\n" : Text) ++ indent, Opening.isPlain c ∧ c ≠ ',' := by decide
  have hcolon : ∀ c ∈ (": " : Text), Opening.isPlain c ∧ c ≠ ',' := by decide
  intro c hc
  rcases List.mem_append.1 hc with hc | hc
  · rcases List.mem_append.1 hc with hc | hc
    · exact hblank c hc
    · exact Opening.isPlain_of_isWord (Text.isWord_of_mem h.name hc)
  · exact hcolon c hc

theorem isPlain_of_mem_ending : ∀ c ∈ parameterEnding field, Opening.isPlain c ∧ c ≠ ',' := by
  rw [parameterEnding]
  split
  · decide
  · simp

/-- What surrounds the type in a parameter opens and closes nothing. The brackets that are open
behind the line are those that the type leaves open. -/
theorem nesting_parameterLine (h : field.IsSpelled) (kinds : List Bracket) :
    Bracket.nesting kinds (parameterLine field) = Bracket.nesting kinds field.typeName := by
  rw [parameterLine_eq, Bracket.nesting_append, Bracket.nesting_of_isPlain (isPlain_of_mem_start h),
    Option.bind_some, Bracket.nesting_append]
  cases Bracket.nesting kinds field.typeName with
  | none => rfl
  | some next => exact Bracket.nesting_of_isPlain isPlain_of_mem_ending

theorem isClosed_parameterLine (h : field.IsSpelled) :
    (parameterLine field).IsClosed ↔ field.typeName.IsClosed := by
  rw [Text.IsClosed, nesting_parameterLine h, Text.IsClosed]

theorem quote_not_mem_parameterLine (h : field.IsSpelled) :
    CodePoint.scalar '"' ∉ parameterLine field := by
  have hname : CodePoint.scalar '"' ∉ field.name := Text.not_mem_of_isIdentifier h.name (by decide)
  have htype : CodePoint.scalar '"' ∉ field.typeName :=
    Descriptor.not_mem_of_isType h.typeName (by decide)
  have hending : CodePoint.scalar '"' ∉ parameterEnding field := by
    rw [parameterEnding]
    split <;> decide
  rw [parameterLine_eq]
  simp only [List.mem_append, not_or]
  exact ⟨⟨⟨⟨by decide, by decide⟩, hname⟩, by decide⟩, htype, hending⟩

theorem isTrimmed_parameter (h : field.IsSpelled) : (parameter field).IsTrimmed := by
  constructor
  · obtain ⟨c, more, hname, hc⟩ := (Text.isTrimmed_of_isIdentifier h.name).first
    rw [parameter_eq, hname]
    exact ⟨c, _, rfl, hc⟩
  · rw [parameter_eq, parameterEnding]
    split
    · have hending : ("? = nil" : Text) = ("? = ni" : Text) ++ [CodePoint.scalar 'l'] := rfl
      exact ⟨field.name ++ ((": " : Text) ++ (field.typeName ++ ("? = ni" : Text))), 'l',
        by rw [hending]; simp only [List.append_assoc], by decide⟩
    · obtain ⟨before, c, htype⟩ : ∃ before c, field.typeName = before ++ [c] :=
        ⟨_, _, (List.dropLast_concat_getLast (Descriptor.ne_nil_of_isType h.typeName)).symm⟩
      refine ⟨field.name ++ ((": " : Text) ++ before), c, by simp [htype], ?_⟩
      exact h.trimmed c (by simp [htype])

theorem isBlank_of_mem_margin : ∀ c ∈ ("\n" : Text) ++ indent, c.isBlank := by decide

theorem parameterStart_isPrefix (field : Field) : parameterStart field <+: parameter field := by
  rw [parameter_eq]
  exact ⟨field.typeName ++ parameterEnding field, by simp only [parameterStart, List.append_assoc]⟩

end Spelled

end Member

end MemberSynthesis
