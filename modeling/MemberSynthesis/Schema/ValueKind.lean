import MemberSynthesis.Text.Vocabulary

/-!
# Value kinds

The type of a field is a name and nothing more. Some names are known to have a zero value that can
be written down, and the value kind of a type says which; a value of any other type is made by
calling the type without arguments. Whether that type can be called so is not known, and it is not
asked.
-/

set_option autoImplicit false

namespace MemberSynthesis

/-- What is known of the values of a type. -/
inductive ValueKind where
  | text
  | integer
  | floating
  /-- Nothing is known. -/
  | other
  deriving DecidableEq, Repr

namespace ValueKind

/-- The kinds are known by words of their own. -/
instance : Vocabulary ValueKind where
  word
    | text => "text"
    | integer => "integer"
    | floating => "floating"
    | other => "other"
  all := [text, integer, floating, other]
  mem_all kind := by cases kind <;> decide
  nodup_words := by decide +kernel

/-- The types whose values are texts. -/
def textTypes : List Text := ["String", "Substring"]

/-- The types whose values are integers. -/
def integerTypes : List Text :=
  ["Int", "Int8", "Int16", "Int32", "Int64", "UInt", "UInt8", "UInt16", "UInt32", "UInt64"]

/-- The types whose values are floating-point numbers. -/
def floatingTypes : List Text := ["Double", "Float"]

/-- The kind of the values of a type, which is known for a few names of the standard library. -/
def ofTypeName (typeName : Text) : ValueKind :=
  if typeName ∈ textTypes then text
  else if typeName ∈ integerTypes then integer
  else if typeName ∈ floatingTypes then floating
  else other

/-- The zero value of a type whose values are of the kind. -/
def zeroValue (typeName : Text) : ValueKind → Text
  | text => "\"\""
  | integer => "0"
  | floating => "0.0"
  | other => typeName ++ "()"

end ValueKind

end MemberSynthesis
