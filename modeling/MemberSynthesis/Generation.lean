import MemberSynthesis.Directive.Interpretation
import MemberSynthesis.Member.OfSchema

/-!
# Generation

From an annotated declaration to its members. Generation is all or nothing: either the text is read,
the directive has a schema and every member comes out, or there is one failure and no member.

The three steps know nothing of each other. Reading gives an attribute and a declaration, whatever
they are; interpreting them gives a schema, or the first mistake of the author; and members are made
of any schema at all, without a way to fail. So everything that can go wrong does before the first
member.
-/

set_option autoImplicit false

namespace MemberSynthesis

/-- Why a source text yields no members. -/
inductive Failure where
  /-- The text cannot be read. -/
  | unreadable (fault : ReadFault)
  /-- The directive has no schema. -/
  | rejected (rejection : Rejection)
  deriving DecidableEq, Repr

/-- The members that a directive adds to the declaration it is attached to, both of which were read
before. -/
def generate (directive : Attribute) (declaration : Declaration) :
    Except Rejection (List Member) := do
  let schema ← Directive.interpret directive declaration
  return schema.members

namespace Source

/-- The schema that the first directive with a name describes in a source text. The name need not be
that of the directive that is expanded. -/
def schema (name text : Text) : Except Failure Schema :=
  match Snippet.read name text with
  | .error fault => .error (.unreadable fault)
  | .ok snippet =>
    match Directive.interpret snippet.directive snippet.declaration with
    | .error rejection => .error (.rejected rejection)
    | .ok schema => .ok schema

/-- The members that the directive of a source text adds. -/
def members (text : Text) : Except Failure (List Member) := do
  let schema ← schema directiveName text
  return schema.members

end Source

end MemberSynthesis
