import MemberSynthesis.Directive.ArgumentLabel
import MemberSynthesis.Schema.Basic

/-!
# Mistakes

What the author of a directive can get wrong. A mistake may concern one argument of the directive,
and then its report names the label (`report`).

A mistake is data and not a message: it says what was expected of which argument, and what stands
there instead. The wording is made from that (`message`), and so is the label (`label?`), so that a
mistake which concerns an argument can not be reported without naming it. Only the first mistake of
a directive is ever reported, in an order that is a matter of interpretation and not of this module.

The labels of the mistakes about arrays and strings are texts and not labels of the directive,
because the checks that find them do not ask which argument they are given. Those about duplicates
and descriptors can only concern one.
-/

set_option autoImplicit false

namespace MemberSynthesis

/-- A mistake of the author of a directive. -/
inductive Mistake where
  /-- The directive is attached to something that is not a type. -/
  | wrongAttachment (directive : Text) (declaration : Declaration)
  /-- The directive has a number of arguments other than three. -/
  | wrongArgumentCount (directive : Text) (count : Nat)
  /-- The argument at a position has no label. -/
  | missingLabel (directive : Text) (position : Nat)
  /-- An argument has a label that the directive does not know. -/
  | unknownArgument (directive label : Text)
  /-- Two arguments have the same label. -/
  | duplicateArgument (label : ArgumentLabel)
  /-- An argument is not an array literal. -/
  | arrayExpected (label : Text)
  /-- An element of an array is not a plain string literal. -/
  | plainElementExpected (index : Nat) (label : Text)
  /-- An argument is not a plain string literal. -/
  | plainStringExpected (label : Text)
  /-- An element is not the descriptor of a field. -/
  | malformedDescriptor (descriptor : Text)
  /-- Two coding fields have the same name. -/
  | duplicateField (name : Text)
  deriving DecidableEq, Repr

namespace Mistake

/-- The kinds of declaration that the directive can be attached to, as a message lists them. -/
def attachableKinds : List DeclarationKind := [.classType, .structType, .actorType]

/-- The wording of a mistake, without the label of the argument. -/
def message : Mistake → Text
  | wrongAttachment directive declaration =>
    "@" ++ directive ++ " can only be attached to a " ++
      Text.joined ", " (attachableKinds.map DeclarationKind.keyword) ++ ", not a " ++
      declaration.kind.keyword ++ " (" ++ declaration.name ++ ")"
  | wrongArgumentCount directive count =>
    "@" ++ directive ++ " requires " ++ Text.ofNat (Vocabulary.words ArgumentLabel).length ++
      " arguments (" ++ ArgumentLabel.listed ++ "), got " ++ Text.ofNat count
  | missingLabel directive position =>
    "argument " ++ Text.ofNat position ++ " of @" ++ directive ++ " has no label; " ++
      "expected one of " ++ ArgumentLabel.listed
  | unknownArgument directive label =>
    "@" ++ directive ++ " found unknown argument named " ++ label
  | duplicateArgument _ => "argument supplied more than once"
  | arrayExpected _ => "expected an array literal"
  | plainElementExpected index _ =>
    "element " ++ Text.ofNat index ++ " is not a plain string literal"
  | plainStringExpected _ => "expected a plain string literal"
  | malformedDescriptor descriptor =>
    "malformed coding member " ++ descriptor.quoted ++
      "; expected \"<name>: <Type>\" or \"<name>: <Type>?\""
  | duplicateField name =>
    "coding field " ++ name.quoted ++ " is declared more than once (implicit fields: " ++
      Text.joined ", " (Field.implicit.map Field.name) ++ ")"

/-- The label of the argument that a mistake concerns. The first three concern the directive as a
whole, or an argument that has no label. -/
def label? : Mistake → Option Text
  | wrongAttachment _ _ | wrongArgumentCount _ _ | missingLabel _ _ => none
  | unknownArgument _ label | arrayExpected label | plainElementExpected _ label
  | plainStringExpected label => some label
  | duplicateArgument label => some label.word
  | malformedDescriptor _ | duplicateField _ => some ArgumentLabel.codingMembers.word

/-- The wording of a mistake, with the label of the argument it concerns unless that is empty. -/
def report (mistake : Mistake) : Text :=
  match mistake.label? with
  | none | some [] => mistake.message
  | some (c :: more) => mistake.message ++ " (argument `" ++ (c :: more) ++ "`)"

end Mistake

end MemberSynthesis
