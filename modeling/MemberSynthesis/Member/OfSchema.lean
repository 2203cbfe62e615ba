import MemberSynthesis.Member.Required
import MemberSynthesis.Member.Equality
import MemberSynthesis.Member.Serialization
import MemberSynthesis.Member.Construction

/-!
# The members of a schema

All the members of a type, in the order in which they are written out. They rely on each other, the
coding on the keys and the equality on the properties, so there is no way to ask for one of them
alone.
-/

set_option autoImplicit false

namespace MemberSynthesis

/-- The members of the type that a schema describes. -/
def Schema.members (schema : Schema) : List Member :=
  Member.required ++
    [Member.propertiesEqual schema, Member.equality schema, Member.hash schema,
      Member.codingKeys schema, Member.decodingInit schema, Member.encode schema,
      Member.emptyInit schema, Member.memberwiseInit schema]

end MemberSynthesis
