import MemberSynthesis.Directive.Descriptor
import MemberSynthesis.Directive.PlainString
import MemberSynthesis.Source.Snippet

/-!
# From a directive to a schema

`interpret` makes the schema of the annotated type from the directive and the declaration, or finds
the author's first mistake. The order of the checks is fixed: the declaration, the number of
arguments, their labels, then the arguments themselves in an order of their own, whatever the order
in which they are written.

The checks ensure that the schema has no fault and that every label is present. Both are tested all
the same, and a failure of either has its own outcome (`Rejection`), apart from the author's
mistakes.
-/

set_option autoImplicit false

namespace MemberSynthesis

/-- Why a directive has no schema. -/
inductive Rejection where
  /-- The author made a mistake. -/
  | mistake (mistake : Mistake)
  /-- An argument is looked for and absent. -/
  | absentArgument (label : ArgumentLabel)
  /-- A descriptor describes a field with faults. -/
  | faultyField (faults : List FieldFault)
  /-- The directive describes a schema with a fault. -/
  | faultySchema (fault : SchemaFault)
  deriving DecidableEq, Repr

namespace Directive

/-- Passes on an outcome whose failure is a mistake. -/
def orMistake {α : Type} : Except Mistake α → Except Rejection α
  | .ok a => .ok a
  | .error mistake => .error (.mistake mistake)

/-! ## The arguments by their labels -/

/-- The expressions by their labels, those of the arguments before `position` being `found`. -/
def collect (directive : Text) (position : Nat) (found : List (ArgumentLabel × Expression)) :
    List Argument → Except Mistake (List (ArgumentLabel × Expression))
  | [] => .ok found
  | argument :: more =>
    match argument.label with
    | none | some [] => .error (.missingLabel directive position)
    | some (c :: word) =>
      match Vocabulary.ofWord? (c :: word) with
      | none => .error (.unknownArgument directive (c :: word))
      | some label =>
        if label ∈ found.map Prod.fst then .error (.duplicateArgument label)
        else collect directive (position + 1) (found ++ [(label, argument.expression)]) more

/-- The expression with a label. -/
def expressionOf (label : ArgumentLabel) (found : List (ArgumentLabel × Expression)) :
    Except Rejection Expression :=
  match found.lookup label with
  | none => .error (.absentArgument label)
  | some expression => .ok expression

/-! ## The fields -/

/-- The field that a descriptor describes. -/
def readField (descriptor : Text) : Except Rejection Field :=
  match Descriptor.field? descriptor with
  | none => .error (.mistake (.malformedDescriptor descriptor))
  | some field =>
    match field.faults with
    | [] => .ok field
    | faults => .error (.faultyField faults)

/-- The first name that occurs earlier in the list or in `seen`. -/
def firstRepeated? (seen : List Text) : List Text → Option Text
  | [] => none
  | name :: more => if name ∈ seen then some name else firstRepeated? (name :: seen) more

/-- The coding fields of the type: those that the descriptors describe, then the implicit ones. -/
def codingFields (descriptors : List Text) : Except Rejection (List Field) := do
  let own ← descriptors.mapM readField
  let fields := own ++ Field.implicit
  match firstRepeated? [] (fields.map Field.name) with
  | some name => .error (.mistake (.duplicateField name))
  | none => return fields

/-! ## The schema -/

/-- A schema whose invariants are tested. -/
def checked (schema : Schema) : Except Rejection Schema :=
  match schema.fault? with
  | none => .ok schema
  | some fault => .error (.faultySchema fault)

/-- The schema that a directive attached to a declaration describes. -/
def interpret (directive : Attribute) (declaration : Declaration) :
    Except Rejection Schema := do
  if declaration.kind ∉ Mistake.attachableKinds then
    .error (.mistake (.wrongAttachment directive.name declaration))
  if directive.arguments.length ≠ (Vocabulary.words ArgumentLabel).length then
    .error (.mistake (.wrongArgumentCount directive.name directive.arguments.length))
  let found ← orMistake (collect directive.name 0 [] directive.arguments)
  let comparable ← expressionOf .comparableMembers found
  let names ← orMistake (comparable.plainStrings ArgumentLabel.comparableMembers.word)
  let coding ← expressionOf .codingMembers found
  let descriptors ← orMistake (coding.plainStrings ArgumentLabel.codingMembers.word)
  let fields ← codingFields descriptors
  let statements ← expressionOf .uselessInitializations found
  let text ← orMistake (statements.plainString ArgumentLabel.uselessInitializations.word)
  checked
    { typeName := declaration.name
      declarationKind := declaration.kind
      comparableFields := names ++ [Schema.comparedName]
      codingFields := fields
      initializerText := text }

end Directive

end MemberSynthesis
