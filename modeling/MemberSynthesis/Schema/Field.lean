import MemberSynthesis.Schema.ValueKind
import MemberSynthesis.Text.Quoted

/-!
# Fields

A field of the annotated type that takes part in coding. Being optional is a property of the field:
its type name is the name of the type without the question mark, and `faults` tells what is wrong
with names that break this.

Neither name is looked at any further. The name of a field need not be an identifier, and its type
name may be any text without a question mark: it is copied to where a type has to stand. A directive
is stricter, since the descriptors that it takes have identifiers for names.
-/

set_option autoImplicit false

namespace MemberSynthesis

/-- A field: its name, its type without the mark of an optional one, whether it is optional, and
whether it is computed, so that it is written out and never read in. -/
structure Field where
  name : Text
  typeName : Text
  nullable : Bool
  readOnly : Bool
  deriving DecidableEq, Repr

/-- What can be wrong with a field. -/
inductive FieldFault where
  | emptyName
  | emptyTypeName
  /-- The type name holds the mark of an optional type. -/
  | markedTypeName (typeName : Text)
  deriving DecidableEq, Repr

namespace FieldFault

/-- The wording of a mark in a type name. -/
def markedMessage (typeName : Text) : Text :=
  "type name must not contain " ++ Text.quoted "?" ++ ": " ++ Text.quoted typeName

end FieldFault

namespace Field

/-- The fault of a field name, which can only be empty. -/
def nameFault? (name : Text) : Option FieldFault :=
  if name = [] then some .emptyName else none

/-- The fault of a type name. A question mark anywhere in it is one, even in the middle. -/
def typeNameFault? (typeName : Text) : Option FieldFault :=
  if typeName = [] then some .emptyTypeName
  else if typeName.contains '?' then some (.markedTypeName typeName)
  else none

/-- All faults of a field, that of its name first. -/
def faults (field : Field) : List FieldFault :=
  (nameFault? field.name).toList ++ (typeNameFault? field.typeName).toList

/-- The kind of the field's values. -/
def kind (field : Field) : ValueKind := .ofTypeName field.typeName

/-- The type as a declaration writes it, with the question mark of an optional one. -/
def writtenType (field : Field) : Text :=
  if field.nullable then field.typeName ++ "?" else field.typeName

/-- The identity of a value: another name for `publicId`. It is the only field that is computed. -/
def identity : Field := ⟨"id", "String", false, true⟩

/-- The six fields that every type has, in the order in which they follow its own. -/
def implicit : List Field :=
  [identity,
    ⟨"publicId", "String", false, false⟩,
    ⟨"name", "String", false, false⟩,
    ⟨"createdAt", "Date", false, false⟩,
    ⟨"updatedAt", "Date", false, false⟩,
    ⟨"deletedAt", "Date", true, false⟩]

end Field

end MemberSynthesis
