import MemberSynthesis.Member.Basic
import MemberSynthesis.Schema.Basic

/-!
# Equality and hashing

Two values are equal if all their coding fields are, and the hash feeds on the same fields, so that
equal values hash alike. The weaker equality compares the comparable fields alone. Those are names
given by the author, and not necessarily names of coding fields.

All three are made from names in the order of the schema, and so the text of a member depends on
that order, though what it means does not. Neither list of names is empty in a schema without
faults, so that the condition after `return` is never blank.
-/

set_option autoImplicit false

namespace MemberSynthesis

namespace Member

/-- The comparison of one field of two values. -/
def comparison (name : Text) : Text := "lhs." ++ name ++ " == rhs." ++ name

/-- The comparison of all the fields, one after the other. -/
def agreement (names : List Text) : Text := Text.joined " && " (names.map comparison)

/-- The header of a comparison of two values of a type, which are called `lhs` and `rhs`. -/
def comparisonHeader (operator typeName : Text) : Text :=
  let parameters : Text := "(lhs: " ++ typeName ++ ", rhs: " ++ typeName ++ ")"
  opened ("static func " ++ operator ++ parameters ++ " -> Bool")

/-- The weaker equality, on the comparable fields. -/
def propertiesEqual (schema : Schema) : Member :=
  ⟨.propertiesEqual, "propertiesEqual",
    braced (comparisonHeader "propertiesEqual" schema.typeName)
      ["return " ++ agreement schema.comparableFields]⟩

/-- The equality, on all coding fields, the computed one included. -/
def equality (schema : Schema) : Member :=
  ⟨.equality, "==",
    braced (comparisonHeader "== " schema.typeName) ["return " ++ agreement schema.codingNames]⟩

/-- The line that feeds a field to the hasher. -/
def hashLine (name : Text) : Text := "hasher.combine(" ++ name ++ ")"

/-- The hash, with one line for each coding field. -/
def hash (schema : Schema) : Member :=
  ⟨.hash, "hash(into:)",
    braced (opened "func hash(into hasher: inout Hasher)") (schema.codingNames.map hashLine)⟩

end Member

end MemberSynthesis
