import MemberSynthesis.Member.Basic
import MemberSynthesis.Schema.Basic

/-!
# Coding

The keys, the decoding initializer and the encoding of a value. Every coding field has a key and is
encoded; only the writable ones are decoded, since the identity follows from `publicId`. An optional
field may be absent from what is decoded, and is left out of what is encoded when it has no value.
-/

set_option autoImplicit false

namespace MemberSynthesis

namespace Member

/-- The line that declares the key of a field. -/
def keyLine (name : Text) : Text := "case " ++ name

/-- The keys. -/
def codingKeys (schema : Schema) : Member :=
  ⟨.codingKeys, "CodingKeys",
    braced (opened "private enum CodingKeys: String, CodingKey") (schema.codingNames.map keyLine)⟩

/-- The method that decodes a field. -/
def decodingMethod (nullable : Bool) : Text := if nullable then "decodeIfPresent" else "decode"

/-- The line that decodes a field. -/
def decodeLine (field : Field) : Text :=
  field.name ++ " = try container." ++ decodingMethod field.nullable ++ "(" ++ field.typeName ++
    ".self, forKey: ." ++ field.name ++ ")"

/-- The line that opens the container values are decoded from. -/
def decodingContainer : Text := "let container = try decoder.container(keyedBy: CodingKeys.self)"

/-- The header of the decoding initializer. That of a class is required of its subclasses too. -/
def decodingHeader (kind : DeclarationKind) : Text :=
  opened <|
    if kind = .classType then "required init(from decoder: Decoder) throws"
    else "init(from decoder: Decoder) throws"

/-- The decoding initializer. -/
def decodingInit (schema : Schema) : Member :=
  ⟨.decodingInit, "init(from:)",
    braced (decodingHeader schema.declarationKind)
      ([decodingContainer, []] ++ schema.writable.map decodeLine ++ schema.initializerLines)⟩

/-- The method that encodes a field. -/
def encodingMethod (nullable : Bool) : Text := if nullable then "encodeIfPresent" else "encode"

/-- The line that encodes a field. -/
def encodeLine (field : Field) : Text :=
  "try container." ++ encodingMethod field.nullable ++ "(" ++ field.name ++ ", forKey: ." ++
    field.name ++ ")"

/-- The line that opens the container values are encoded into. -/
def encodingContainer : Text := "var container = encoder.container(keyedBy: CodingKeys.self)"

/-- The encoding. -/
def encode (schema : Schema) : Member :=
  ⟨.encode, "encode(to:)",
    braced (opened "func encode(to encoder: Encoder) throws")
      ([encodingContainer, []] ++ schema.codingFields.map encodeLine)⟩

end Member

end MemberSynthesis
