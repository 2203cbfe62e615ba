import MemberSynthesis.Directive.Mistake
import MemberSynthesis.Source.Expression

/-!
# Plain strings

The directive takes nothing but **plain strings**, string literals without interpolation, alone or
in an array. An interpolation is code, and its value is not known when members are generated; so a
literal that has one is refused, although its other parts are read. So is any expression that only
computes a string.
-/

set_option autoImplicit false

namespace MemberSynthesis

namespace Expression

/-- The content of a plain string, with its escapes resolved. -/
def plainString? : Expression → Option Text
  | string value false => some value
  | _ => none

/-- The contents of plain strings, the first of which has the given index. The first element that is
none is the one that is blamed. -/
def plainElements (label : Text) (index : Nat) : List Expression → Except Mistake (List Text)
  | [] => .ok []
  | element :: more =>
    match element.plainString? with
    | none => .error (.plainElementExpected index label)
    | some value => do
      let values ← plainElements label (index + 1) more
      return value :: values

/-- The contents of an array of plain strings, which has to be written as an array, even if it is
empty. -/
def plainStrings (label : Text) : Expression → Except Mistake (List Text)
  | array elements => plainElements label 0 elements
  | _ => .error (.arrayExpected label)

/-- The content of an argument that has to be a plain string. -/
def plainString (label : Text) (expression : Expression) : Except Mistake Text :=
  match expression.plainString? with
  | none => .error (.plainStringExpected label)
  | some value => .ok value

end Expression

end MemberSynthesis
