import MemberSynthesis.Text.Basic

/-!
# Blanks

White space in the Unicode sense: the characters of bidirectional type `WS`, `B` or `S`, and the
space separators. It separates the words of a declaration and may surround every argument, label and
descriptor. The ASCII spaces are tested for by number, and the others are looked up in a table of
eight ranges (`wideBlankRanges`).
-/

set_option autoImplicit false

namespace MemberSynthesis

/-- The closed ranges of blanks outside ASCII. -/
def wideBlankRanges : List (Nat × Nat) :=
  [(0x85, 0x85), (0xA0, 0xA0), (0x1680, 0x1680), (0x2000, 0x200A), (0x2028, 0x2029),
    (0x202F, 0x202F), (0x205F, 0x205F), (0x3000, 0x3000)]

/-- A space, one of the layout controls `U+0009` to `U+000D`, one of the information separators
`U+001C` to `U+001F`, or a blank outside ASCII. -/
def CodePoint.isBlank (c : CodePoint) : Bool :=
  c.toNat = 0x20 || (0x09 ≤ c.toNat && c.toNat ≤ 0x0D) || (0x1C ≤ c.toNat && c.toNat ≤ 0x1F) ||
    inRanges wideBlankRanges c.toNat

namespace Text

/-- The text without the blanks at its start. -/
def trimStart (text : Text) : Text := text.dropWhile CodePoint.isBlank

/-- The text without the blanks at its end. -/
def trimEnd (text : Text) : Text := dropEndWhile CodePoint.isBlank text

/-- The text without the blanks at its two ends. -/
def trim (text : Text) : Text := strip CodePoint.isBlank text

theorem length_trimStart_le (text : Text) : (trimStart text).length ≤ text.length :=
  (List.dropWhile_sublist CodePoint.isBlank).length_le

theorem length_trim_le (text : Text) : (trim text).length ≤ text.length :=
  length_strip_le CodePoint.isBlank text

/-- The number of blanks that the text starts with. -/
def leadingBlanks (text : Text) : Nat := (text.takeWhile CodePoint.isBlank).length

/-- The words of a text: its maximal runs of code points that are not blank. -/
def words : Text → List Text
  | [] => []
  | c :: rest =>
    if c.isBlank then words rest
    else if rest.head?.all CodePoint.isBlank then [c] :: words rest
    else
      match words rest with
      | [] => [[c]]
      | word :: more => (c :: word) :: more

end Text

end MemberSynthesis
