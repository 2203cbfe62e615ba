import MemberSynthesis.Text.CodePoint

/-!
# Positions

A place in a text is given to its author as a line and a column, both counted from one. A line ends
at a line feed and nowhere else, and the line feed still stands on the line that it ends.

An offset is an integer: a negative one counts back from the end of the text, and one beyond the end
is on the last line. The column is measured from the offset as it was given.
-/

set_option autoImplicit false

namespace MemberSynthesis

/-- A line and a column. -/
structure Position where
  line : Nat
  column : Int
  deriving DecidableEq, Repr

namespace Position

/-- The part of a text before an offset. -/
def textBefore (text : Text) (offset : Int) : Text :=
  text.take (if offset < 0 then offset + text.length else offset).toNat

/-- The number of code points since the last line feed. -/
def sinceLineFeed (text : Text) : Nat :=
  (text.reverse.takeWhile fun c => c ≠ CodePoint.scalar '\n').length

/-- The position of an offset in a text. -/
def ofOffset (text : Text) (offset : Int) : Position :=
  let before := textBefore text offset
  { line := before.count (CodePoint.scalar '\n') + 1
    column := offset - (before.length - sinceLineFeed before - 1) }

end Position

end MemberSynthesis
