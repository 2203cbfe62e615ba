import MemberSynthesis.Source.Expression
import MemberSynthesis.Text.Identifier

/-!
# Arguments

An argument of an attribute is an expression that a label may precede: an identifier and a colon,
blanks allowed around both. Two colons together are no end of a label, and neither is a colon that
stands further on: in `f(x): y` no label precedes an expression.
-/

set_option autoImplicit false

namespace MemberSynthesis

/-- An argument of an attribute. Without a label it is known by its position only. -/
structure Argument where
  label : Option Text
  expression : Expression
  deriving DecidableEq, Repr

namespace Argument

/-- The label that an item starts with, and the text after its colon, blanks included. -/
def splitLabel? (item : Text) : Option (Text × Text) :=
  match Identifier.split? item.trimStart with
  | none => none
  | some (label, rest) =>
    match rest.trimStart with
    | [] => none
    | c :: value =>
      if c = ':' ∧ value.head? ≠ some (CodePoint.scalar ':') then some (label, value) else none

/-- Reads an item of an argument list. A label moves the faults of the expression behind it. -/
def read (item : Text) : Reading Argument :=
  match splitLabel? item with
  | none => do
    let expression ← Expression.read item
    return ⟨none, expression⟩
  | some (label, value) => do
    let expression ← Reading.moved (item.length - value.length) (Expression.read value)
    return ⟨some label, expression⟩

/-- Reads the inside of an argument list, item by item. An empty one has no arguments. -/
def readAll (inside : Text) : Reading (List Argument) := do
  let items ← Item.split inside
  items.mapM fun item => Reading.moved item.offset (read item.text)

end Argument

end MemberSynthesis
