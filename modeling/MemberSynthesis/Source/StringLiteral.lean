import MemberSynthesis.Source.Opening
import MemberSynthesis.Text.HexNumeral

/-!
# String literals

The content of a string literal, read from the text between its quotes. A backslash starts an
**escape**: one of seven letters and signs stands for one code point, `\u{…}` for the code point
with the number in the braces, and `\(…)` is an interpolation, whose source is kept as it is
written. All else stands for itself.
-/

set_option autoImplicit false

namespace MemberSynthesis

/-- The content of a string literal, and whether interpolations occur in it. -/
structure StringContent where
  value : Text
  interpolated : Bool
  deriving DecidableEq, Repr

/-- What an escape stands for, whether it is an interpolation, and the number of code points it
takes after its backslash. -/
structure Escape where
  value : Text
  interpolated : Bool
  length : Nat
  deriving DecidableEq, Repr

namespace Escape

/-- The code point that a backslash and a single letter or sign stand for. There are seven of
these. -/
def simple? (c : CodePoint) : Option CodePoint :=
  if c = 'n' then some '\n'
  else if c = 't' then some '\t'
  else if c = 'r' then some '\r'
  else if c = '0' then some '\x00'
  else if c = '\\' ∨ c = '"' ∨ c = '\'' then some c
  else none

/-- Reads the escape whose backslash stands before the text. -/
def read : Text → Reading Escape
  | [] => .error ⟨.pastEnd, 0⟩
  | c :: rest =>
    if c = '(' then do
      let close ← Reading.moved 1 (Text.unitEnd (c :: rest))
      return ⟨'\\' :: (c :: rest).take (close + 1), true, close + 1⟩
    else if c = 'u' ∧ rest.head? = some (CodePoint.scalar '{') then
      let numeral := (rest.drop 1).takeWhile fun d => d ≠ CodePoint.scalar '}'
      -- Without a closing brace the numeral reaches to the end of the literal.
      let closed := numeral.length + 1 < rest.length
      match HexNumeral.codePoint? numeral with
      | some named =>
        if closed then .ok ⟨[named], false, numeral.length + 3⟩
        else .error ⟨.invalidUnicodeEscape, 0⟩
      | none => .error ⟨.invalidUnicodeEscape, 0⟩
    else
      match simple? c with
      | some meant => .ok ⟨[meant], false, 1⟩
      | none => .error ⟨.invalidEscape c, 0⟩

end Escape

namespace StringContent

/-- The content after something that was read before it. One interpolation is enough for the whole
to be interpolated. -/
def prepend (value : Text) (interpolated : Bool) (content : StringContent) : StringContent :=
  ⟨value ++ content.value, interpolated || content.interpolated⟩

/-- Reads the text between the quotes of a literal. -/
def read : Text → Reading StringContent
  | [] => .ok ⟨[], false⟩
  | c :: rest =>
    if c = '\\' then do
      let escape ← Escape.read rest
      let content ← Reading.moved (escape.length + 1) (read (rest.drop escape.length))
      return content.prepend escape.value escape.interpolated
    else do
      let content ← Reading.moved 1 (read rest)
      return content.prepend [c] false
termination_by text => text.length

end StringContent

end MemberSynthesis
