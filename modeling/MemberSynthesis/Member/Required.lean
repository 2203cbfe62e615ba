import MemberSynthesis.Member.Basic
import MemberSynthesis.Schema.Field

/-!
# Required members

The implicit fields as properties. The identity is computed from `publicId`; the others are stored.
These members are the same for every type, and they do not depend on its schema: it is the schema
that has to end with the same fields.
-/

set_option autoImplicit false

namespace MemberSynthesis

namespace Member

/-- What the identity is computed from. -/
def identitySource : Text := "publicId"

/-- The declaration of a property, up to its type, which is all that a stored one needs. -/
def propertyHeader (field : Field) : Text := "var " ++ field.name ++ ": " ++ field.writtenType

/-- The property of a field, computed if the field is, without a value of its own. -/
def property (field : Field) : Member :=
  if field.readOnly then
    ⟨.computedProperty, field.name, braced (opened (propertyHeader field)) [identitySource]⟩
  else ⟨.storedProperty, field.name, propertyHeader field⟩

/-- The properties of the implicit fields. -/
def required : List Member := Field.implicit.map property

end Member

end MemberSynthesis
