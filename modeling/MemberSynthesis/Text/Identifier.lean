import MemberSynthesis.Text.WordRanges
import MemberSynthesis.Text.Blank

/-!
# Words and identifiers

An **identifier** starts with an ASCII letter or an underscore and goes on with word characters,
which outside ASCII are the letters and numbers of Unicode. Attribute names, argument labels, field
names and declared names are identifiers, and each of them is recognised here and nowhere else:
`split?` cuts one off a text, `isIdentifier` tests a whole text.
-/

set_option autoImplicit false

namespace MemberSynthesis

namespace CodePoint

/-- An ASCII letter or an underscore. -/
def isIdentifierStart (c : CodePoint) : Bool :=
  (0x41 ≤ c.toNat && c.toNat ≤ 0x5A) || (0x61 ≤ c.toNat && c.toNat ≤ 0x7A) || c.toNat = 0x5F

/-- An ASCII letter, an underscore, an ASCII digit, or a letter or number outside ASCII. -/
def isWord (c : CodePoint) : Bool :=
  c.isIdentifierStart || (0x30 ≤ c.toNat && c.toNat ≤ 0x39) ||
    (0x80 ≤ c.toNat && inRanges wideWordRanges c.toNat)

theorem isWord_of_isIdentifierStart {c : CodePoint} (h : c.isIdentifierStart) : c.isWord := by
  simp [isWord, h]

end CodePoint

namespace Identifier

/-- The identifier that a text starts with, and what follows it. -/
def split? : Text → Option (Text × Text)
  | [] => none
  | c :: rest =>
    if c.isIdentifierStart then
      some (c :: rest.takeWhile CodePoint.isWord, rest.dropWhile CodePoint.isWord)
    else none

/-- An identifier is never empty, and cutting it off loses nothing. -/
theorem append_of_split? {text name rest : Text} (h : split? text = some (name, rest)) :
    name ++ rest = text ∧ name ≠ [] := by
  cases text with
  | nil => cases h
  | cons c more =>
    by_cases hc : c.isIdentifierStart
    · simp only [split?, hc, if_true, Option.some.injEq, Prod.mk.injEq] at h
      obtain ⟨rfl, rfl⟩ := h
      simp
    · simp [split?, hc] at h

end Identifier

/-- Whether the whole text is an identifier. -/
def Text.isIdentifier : Text → Bool
  | [] => false
  | c :: rest => c.isIdentifierStart && rest.all CodePoint.isWord

end MemberSynthesis
