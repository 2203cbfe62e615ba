import MemberSynthesis.Schema.Field
import MemberSynthesis.Text.Identifier

/-!
# Field descriptors

A field is described by its name, a colon and a space, and its type, which a question mark makes
optional; blanks are allowed around each of them. The name is an identifier. The type is not parsed,
only spelled: it starts with a letter, an underscore or an opening bracket and goes on with word
characters, dots and brackets, and with commas and colons, after each of which a space may stand.
-/

set_option autoImplicit false

namespace MemberSynthesis

namespace Descriptor

/-- The parts of a text before and after its first colon with a space behind it. -/
def cut? : Text → Option (Text × Text)
  | [] => none
  | c :: rest =>
    if c = ':' ∧ rest.head? = some (CodePoint.scalar ' ') then some ([], rest.drop 1)
    else (cut? rest).map fun parts => (c :: parts.1, parts.2)

/-- Whether a type can start with the code point. -/
def isTypeStart (c : CodePoint) : Bool := c.isIdentifierStart || c = '[' || c = '('

/-- Whether a type can go on with the code point wherever it stands. -/
def isTypePart (c : CodePoint) : Bool :=
  c.isWord || c = '.' || c = '<' || c = '>' || c = '[' || c = ']' || c = '(' || c = ')'

/-- Whether a type can go on so. A space has to stand right after a comma or a colon, which
`mayBreak` remembers. -/
def isTypeRest (mayBreak : Bool) : Text → Bool
  | [] => true
  | c :: rest =>
    if c = ' ' then mayBreak && isTypeRest false rest
    else if c = ',' ∨ c = ':' then isTypeRest true rest
    else isTypePart c && isTypeRest false rest

/-- Whether the whole text is the spelling of a type. -/
def isType : Text → Bool
  | [] => false
  | c :: rest => isTypeStart c && isTypeRest false rest

/-- A type without the mark of an optional one, and whether it had the mark. -/
def unmark (type : Text) : Text × Bool :=
  if type.getLast? = some (CodePoint.scalar '?') then (Text.trimEnd type.dropLast, true)
  else (type, false)

/-- The field that a descriptor describes. -/
def field? (descriptor : Text) : Option Field := do
  -- The mark of an optional type is taken off before the spelling of the type is checked.
  let (left, right) ← cut? descriptor
  let name := left.trim
  let (typeName, nullable) := unmark right.trim
  if name.isIdentifier ∧ isType typeName then
    return ⟨name, typeName, nullable, false⟩
  else none

end Descriptor

end MemberSynthesis
