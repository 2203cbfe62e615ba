import MemberSynthesis.Text.Lines
import MemberSynthesis.Text.Vocabulary

/-!
# Members

A member is one generated declaration: what it is, its name, and its text. Most members are
**blocks**: a header, the lines of a body one step to the right, and a closing brace.

The text is all that is ever inserted into a source, and the kind and the name are there for whoever
looks for a member among others. All lines of a body are laid out here (`braced`), so that what is
known of the layout of one block is known of all. An empty line is not moved, and a body without
lines leaves the two braces on two lines.
-/

set_option autoImplicit false

namespace MemberSynthesis

/-- What a generated declaration is. Every kind but the two of properties occurs once among the
members of a type. -/
inductive MemberKind where
  | storedProperty
  | computedProperty
  | propertiesEqual
  | equality
  | hash
  | codingKeys
  | decodingInit
  | encode
  | emptyInit
  | memberwiseInit
  deriving DecidableEq, Repr

/-- The kinds are known by words of their own. -/
instance : Vocabulary MemberKind where
  word
    | .storedProperty => "stored_property"
    | .computedProperty => "computed_property"
    | .propertiesEqual => "properties_equal"
    | .equality => "equality"
    | .hash => "hash"
    | .codingKeys => "coding_keys"
    | .decodingInit => "decoding_init"
    | .encode => "encode"
    | .emptyInit => "empty_init"
    | .memberwiseInit => "memberwise_init"
  all :=
    [.storedProperty, .computedProperty, .propertiesEqual, .equality, .hash, .codingKeys,
      .decodingInit, .encode, .emptyInit, .memberwiseInit]
  mem_all kind := by cases kind <;> decide
  nodup_words := by decide +kernel

/-- A generated declaration. It has no indentation of its own. -/
structure Member where
  kind : MemberKind
  name : Text
  text : Text
  deriving DecidableEq, Repr

namespace Member

/-- One step to the right. -/
def indent : Text := "    "

/-- What stands before a block, and the brace that opens it, a space in between. -/
def opened (head : Text) : Text := head ++ " \x7b"

/-- A header, which ends with an opening brace, the lines of a body one step to the right of it, and
a closing brace. -/
def braced (header : Text) (body : List Text) : Text :=
  Text.stacked (header :: body.map (Text.indented indent) ++ [("\x7d" : Text)])

end Member

end MemberSynthesis
