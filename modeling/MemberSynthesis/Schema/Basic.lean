import MemberSynthesis.Schema.Field
import MemberSynthesis.Source.Declaration
import MemberSynthesis.Text.Margin

/-!
# Schemas

The schema of an annotated type is all that its members are made from. `fault?` checks what the
members rely on: the implicit fields come last, the identity is the only computed field, names are
unique, and the weaker equality compares the name.

These are tests and not part of the type, because a schema also arrives from outside, and then what
is wrong with it has to be reported. They are made in a fixed order, and only the first that fails
is a fault. What passing all of them amounts to is said declaratively elsewhere; here is what is
run.

The statements for the initializers are kept as the author wrote them. They are cut into lines only
where an initializer is made (`initializerLines`).
-/

set_option autoImplicit false

namespace MemberSynthesis

/-- The schema of an annotated type. -/
structure Schema where
  /-- The name of the type. -/
  typeName : Text
  /-- The kind of its declaration. -/
  declarationKind : DeclarationKind
  /-- The names of the fields that the weaker equality compares. -/
  comparableFields : List Text
  /-- The fields that take part in coding. -/
  codingFields : List Field
  /-- Statements for the end of every initializer. -/
  initializerText : Text
  deriving DecidableEq, Repr

/-- What can be wrong with a schema, in the order in which it is tested. -/
inductive SchemaFault where
  /-- The coding fields do not end with the implicit ones. -/
  | noImplicitFields
  /-- Not just one coding field is computed. -/
  | readOnlyCount
  /-- Two coding fields have one name; all their names are given. -/
  | repeatedName (names : List Text)
  /-- The comparable fields do not end with the name. -/
  | nameNotCompared
  deriving DecidableEq, Repr

namespace SchemaFault

/-- The wording of a fault. -/
def message : SchemaFault → Text
  | noImplicitFields => "coding fields must end with the implicit fields"
  | readOnlyCount => "exactly one coding field must be read-only"
  | repeatedName names => "coding field names must be unique: " ++ Text.quotedList names
  | nameNotCompared => "comparable fields must end with " ++ Text.quoted "name"

end SchemaFault

namespace Schema

/-- The field that every weaker equality compares. -/
def comparedName : Text := "name"

/-- The names of the coding fields, the author's own first. -/
def codingNames (schema : Schema) : List Text := schema.codingFields.map Field.name

/-- The first fault of a schema, if it has one. -/
def fault? (schema : Schema) : Option SchemaFault :=
  if ¬ Field.implicit.isSuffixOf schema.codingFields then some .noImplicitFields
  else if schema.codingFields.countP Field.readOnly ≠ 1 then some .readOnlyCount
  else if ¬ schema.codingNames.Nodup then some (.repeatedName schema.codingNames)
  else if schema.comparableFields.getLast? ≠ some comparedName then some .nameNotCompared
  else none

/-- The fields that are read in and initialized: all but the computed one. -/
def writable (schema : Schema) : List Field :=
  schema.codingFields.filter fun field => !field.readOnly

/-- The lines of the statements for the initializers, without their margin and without line feeds
around them. -/
def initializerLines (schema : Schema) : List Text :=
  schema.initializerText.withoutMargin.stripFeeds.lines

end Schema

end MemberSynthesis
