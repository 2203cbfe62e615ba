import MemberSynthesis.Text.Lines

/-!
# Margins

The margin of a text is the indentation that all its written lines share, code point by code point:
a tab and a space are different indentation, so a line indented by one and a line indented by the
other share none. Lines are feed lines here, and a line of nothing but spaces and tabs counts as
empty: it has no say in the margin.
-/

set_option autoImplicit false

namespace MemberSynthesis

/-- A space or a tab. -/
def CodePoint.isIndent (c : CodePoint) : Bool := c = ' ' || c = '\t'

namespace Text

/-- The spaces and tabs that a line starts with. -/
def indentation (line : Text) : Text := line.takeWhile CodePoint.isIndent

/-- The longest text that both texts start with. -/
def commonStart : Text → Text → Text
  | a :: s, b :: t => if a = b then a :: commonStart s t else []
  | _, _ => []

/-- The longest indentation that every line shares. -/
def sharedIndentation : List Text → Text
  | [] => []
  | [line] => line.indentation
  | line :: more => commonStart line.indentation (sharedIndentation more)

/-- The feed lines of a text, those of nothing but spaces and tabs emptied. -/
def writtenLines (text : Text) : List Text :=
  (feedLines text).map fun line => if line.all CodePoint.isIndent then [] else line

/-- The longest indentation that the lines share, empty ones left out. -/
def margin (text : Text) : Text :=
  sharedIndentation ((writtenLines text).filter (· ≠ []))

/-- The text with its margin taken off every line. -/
def withoutMargin (text : Text) : Text :=
  stacked ((writtenLines text).map fun line => line.drop (margin text).length)

end Text

end MemberSynthesis
