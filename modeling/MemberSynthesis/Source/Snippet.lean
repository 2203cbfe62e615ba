import MemberSynthesis.Source.Attribute
import MemberSynthesis.Source.Declaration

/-!
# Snippets

A snippet is the part of a source text that matters: an attribute, found by its name, and the
declaration that it is attached to. `Snippet.read` is the only entry to the reading of source text.

The reading goes forward and never back. The first mention of the attribute decides where it starts;
its argument list is read, or found missing; other attributes behind it are passed over, and the
declaration is what the words behind those say. Each step is given what is left of the text and
gives the number of code points it has used, so that a fault is moved by what was used before it.

How deeply calls may nest is not limited here: strings, interpolations and arrays are read to any
depth, and the recursion limit of an interpreter that runs such a reader is no part of the model.
-/

set_option autoImplicit false

namespace MemberSynthesis

/-- The attribute that was asked for and the declaration it is attached to. -/
structure Snippet where
  directive : Attribute
  declaration : Declaration
  deriving DecidableEq, Repr

namespace Snippet

/-- The arguments of an attribute, read from the text after its name, and the number of code points
that they take. -/
def readArguments (text : Text) : Reading (List Argument × Nat) :=
  if text.trimStart.head? = some (CodePoint.scalar '(') then do
    let gap := text.leadingBlanks
    let close ← Reading.moved gap (Text.unitEnd text.trimStart)
    let inside := (text.drop (gap + 1)).take (close - 1)
    let arguments ← Reading.moved (gap + 1) (Argument.readAll inside)
    return (arguments, gap + close + 1)
  else return ([], 0)

/-- Reads on after the name of the attribute. -/
def readAfter (name text : Text) : Reading Snippet := do
  let (arguments, used) ← readArguments text
  let skipped ← Reading.moved used (Attribute.skip (text.drop used))
  match Declaration.ofHead? (text.drop (used + skipped)) with
  | none => .error ⟨.noDeclaration, used + skipped⟩
  | some declaration => return ⟨⟨name, arguments⟩, declaration⟩

/-- Reads the first mention of the attribute `name` and the declaration after it. -/
def read (name text : Text) : Reading Snippet :=
  match Attribute.findMention? name text with
  | none => .error ⟨.noDirective name, 0⟩
  | some offset =>
    let start := offset + 1 + name.length
    Reading.moved start (readAfter name (text.drop start))

end Snippet

end MemberSynthesis
