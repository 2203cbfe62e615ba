import MemberSynthesis.Text.Identifier
import MemberSynthesis.Text.Vocabulary

/-!
# Declarations

Only the head of a declaration is read, and only its kind and name are kept: any number of
modifiers, the keyword of a kind, and a word that starts with an identifier, which is the name. What
follows the name in its word (`Recipe<T>:`) has no say.
-/

set_option autoImplicit false

namespace MemberSynthesis

/-- The kind of a declaration. -/
inductive DeclarationKind where
  | classType
  | structType
  | actorType
  | enumType
  | protocolType
  | typeExtension
  | function
  | varBinding
  | letBinding
  deriving DecidableEq, Repr

/-- The keyword that introduces a declaration of the kind. -/
def DeclarationKind.keyword : DeclarationKind → Text
  | classType => "class"
  | structType => "struct"
  | actorType => "actor"
  | enumType => "enum"
  | protocolType => "protocol"
  | typeExtension => "extension"
  | function => "func"
  | varBinding => "var"
  | letBinding => "let"

/-- The kinds are known by their keywords. -/
instance : Vocabulary DeclarationKind where
  word := DeclarationKind.keyword
  all :=
    [.classType, .structType, .actorType, .enumType, .protocolType, .typeExtension, .function,
      .varBinding, .letBinding]
  mem_all kind := by cases kind <;> decide
  nodup_words := by decide +kernel

/-- A declaration: its kind and its name. -/
structure Declaration where
  kind : DeclarationKind
  name : Text
  deriving DecidableEq, Repr

namespace Declaration

/-- The modifiers that may precede the keyword, in any order and number. Attributes are passed over
before this. -/
def modifiers : List Text :=
  ["public", "private", "fileprivate", "internal", "open", "final", "static"]

/-- The declaration whose head a text starts with. The first word that is no modifier has to be a
keyword, and the one behind it has to start with an identifier. -/
def ofHead? (text : Text) : Option Declaration :=
  match text.words.dropWhile (· ∈ modifiers) with
  | keyword :: named :: _ => do
    let kind ← Vocabulary.ofWord? keyword
    let (name, _) ← Identifier.split? named
    return ⟨kind, name⟩
  | _ => none

end Declaration

end MemberSynthesis
