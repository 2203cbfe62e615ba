import MemberSynthesis.Member.Basic
import MemberSynthesis.Schema.Basic

/-!
# Initializers

The initializer without arguments gives every writable field its zero value, the memberwise one
takes a parameter for each. Both end with the statements of the schema, line by line, wherever those
come from: they are not looked at.

The identity is left out of both, since it can not be assigned. A parameter stands on a line of its
own, with its type as the field has it, and whatever that type is: it is put between a colon and a
comma, and nothing makes sure that it holds no comma itself.
-/

set_option autoImplicit false

namespace MemberSynthesis

namespace Member

/-- The zero value of a field: nothing for an optional one, and for any other the zero value of its
type. -/
def initialValue (field : Field) : Text :=
  if field.nullable then "nil" else field.kind.zeroValue field.typeName

/-- The line that gives a field its zero value. -/
def defaultLine (field : Field) : Text := field.name ++ " = " ++ initialValue field

/-- The initializer without arguments. Of its lines, the last ones are the statements. -/
def emptyInit (schema : Schema) : Member :=
  ⟨.emptyInit, "init()",
    braced (opened "init()") (schema.writable.map defaultLine ++ schema.initializerLines)⟩

/-- The parameter of a field. An optional one may be left out. -/
def parameter (field : Field) : Text :=
  if field.nullable then field.name ++ ": " ++ field.writtenType ++ " = nil"
  else field.name ++ ": " ++ field.typeName

/-- The lines of a parameter list: a comma after every parameter but the last. -/
def parameterLines : List Text → List Text
  | [] => []
  | [last] => [indent ++ last]
  | parameter :: next :: more => (indent ++ parameter ++ ",") :: parameterLines (next :: more)

/-- The header of the memberwise initializer, with a line for each parameter. -/
def memberwiseHeader (fields : List Field) : Text :=
  Text.stacked (("init(" : Text) :: parameterLines (fields.map parameter) ++ [opened ")"])

/-- The line that gives a field the value of its parameter. The `self` is needed, as the two have
one name. -/
def assignmentLine (field : Field) : Text := "self." ++ field.name ++ " = " ++ field.name

/-- The memberwise initializer, under a name that does not list its parameters. -/
def memberwiseInit (schema : Schema) : Member :=
  ⟨.memberwiseInit, "init(...)",
    braced (memberwiseHeader schema.writable)
      (schema.writable.map assignmentLine ++ schema.initializerLines)⟩

end Member

end MemberSynthesis
