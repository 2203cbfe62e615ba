import MemberSynthesis.Text.Basic
import MemberSynthesis.Text.UnprintableRanges

/-!
# Quoted texts

How a message shows a text that may hold anything: between quotes, on one line, and with every
unprintable code point written by its number, so that the quoted form is printable
and tells any two texts apart.
-/

set_option autoImplicit false

namespace MemberSynthesis

/-- A control character, `U+007F`, or an unprintable code point outside ASCII. -/
def CodePoint.isUnprintable (c : CodePoint) : Bool :=
  c.toNat < 0x20 || c.toNat = 0x7F || (0x80 ≤ c.toNat && inRanges wideUnprintableRanges c.toNat)

namespace Text

/-- The last `width` hexadecimal digits of a number, in lower case. -/
def hexDigits : Nat → Nat → Text
  | 0, _ => []
  | width + 1, n => hexDigits width (n / 16) ++ [CodePoint.scalar (Nat.digitChar (n % 16))]

/-- A code point inside quotes of the given kind. The quote and the backslash get a backslash, line
feed, carriage return and tab their letters, and any other unprintable code point the shortest of
the numbered forms `\xNN`, `\uNNNN` and `\UNNNNNNNN` that holds its number. -/
def quotedCodePoint (quote c : CodePoint) : Text :=
  if c = quote ∨ c = '\\' then ['\\', c]
  else if c = '\n' then "\\n"
  else if c = '\r' then "\\r"
  else if c = '\t' then "\\t"
  else if c.isUnprintable then
    if c.toNat < 0x100 then "\\x" ++ hexDigits 2 c.toNat
    else if c.toNat < 0x10000 then "\\u" ++ hexDigits 4 c.toNat
    else "\\U" ++ hexDigits 8 c.toNat
  else [c]

/-- The quotes a text is shown in: single ones, unless it holds a single quote and no double one. -/
def quoteFor (text : Text) : CodePoint :=
  if (text.contains '\'') && !(text.contains '"') then '"' else '\''

/-- A text as messages show it. -/
def quoted (text : Text) : Text :=
  let quote := quoteFor text
  [quote] ++ text.flatMap (quotedCodePoint quote) ++ [quote]

/-- A list of texts as messages show it. -/
def quotedList (texts : List Text) : Text :=
  "[" ++ joined ", " (texts.map quoted) ++ "]"

end Text

end MemberSynthesis
