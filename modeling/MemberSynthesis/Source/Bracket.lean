import MemberSynthesis.Text.CodePoint

/-!
# Brackets

The three kinds of brackets that group source text. Each kind has one code point that opens a group
and one that closes it, and no two kinds share either. So a bracket is its kind and its side
(`ofOpener?_eq_some_iff`, `ofCloser?_eq_some_iff`), and whether two brackets belong together is a
question about kinds. Angle brackets are not among them.
-/

set_option autoImplicit false

namespace MemberSynthesis

/-- A kind of bracket. -/
inductive Bracket where
  | round
  | square
  | curly
  deriving DecidableEq, Repr

namespace Bracket

/-- The code point that opens a group. -/
def opener : Bracket → Char
  | round => '('
  | square => '['
  | curly => '{'

/-- The code point that closes a group. -/
def closer : Bracket → Char
  | round => ')'
  | square => ']'
  | curly => '}'

/-- The kind that a code point opens, if it opens a group at all. -/
def ofOpener? (c : CodePoint) : Option Bracket :=
  if c = '(' then some round else if c = '[' then some square
  else if c = '{' then some curly else none

/-- The kind that a code point closes, if it closes a group at all. -/
def ofCloser? (c : CodePoint) : Option Bracket :=
  if c = ')' then some round else if c = ']' then some square
  else if c = '}' then some curly else none

theorem ofOpener?_eq_some_iff {c : CodePoint} {b : Bracket} :
    ofOpener? c = some b ↔ c = b.opener := by
  constructor
  · unfold ofOpener?
    split
    · rintro ⟨⟩; assumption
    · split
      · rintro ⟨⟩; assumption
      · split
        · rintro ⟨⟩; assumption
        · rintro ⟨⟩
  · rintro rfl
    cases b <;> decide

theorem ofCloser?_eq_some_iff {c : CodePoint} {b : Bracket} :
    ofCloser? c = some b ↔ c = b.closer := by
  constructor
  · unfold ofCloser?
    split
    · rintro ⟨⟩; assumption
    · split
      · rintro ⟨⟩; assumption
      · split
        · rintro ⟨⟩; assumption
        · rintro ⟨⟩
  · rintro rfl
    cases b <;> decide

end Bracket

end MemberSynthesis
