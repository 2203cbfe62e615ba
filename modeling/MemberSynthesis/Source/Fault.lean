import MemberSynthesis.Source.Bracket
import MemberSynthesis.Text.Basic

/-!
# Faults of reading

A source text that cannot be read has a **fault**: a cause and the offset it stands at. Every reader
takes a text of its own and counts offsets from its start; whoever cut that text out of a larger one
moves the fault by the place of the cut (`Reading.moved`). So no reader knows where it is, and
reading a piece gives the same result wherever the piece stands.
-/

set_option autoImplicit false

namespace MemberSynthesis

/-- Why a source text cannot be read. -/
inductive ReadCause where
  /-- No attribute of this name stands in the text. -/
  | noDirective (name : Text)
  /-- No declaration follows the attribute. -/
  | noDeclaration
  /-- A string literal opens with three quotes. -/
  | multilineString
  /-- A string literal does not end on its line. -/
  | unterminatedString
  /-- A closing bracket does not match what is open. -/
  | unbalanced (closed : Bracket)
  /-- An opening bracket is never closed. -/
  | unclosed (opened : Bracket)
  /-- An item of a list is blank. -/
  | noExpression
  /-- The braces of a `\u{…}` escape do not hold the number of a code point. -/
  | invalidUnicodeEscape
  /-- A backslash stands before a code point that it does not escape. -/
  | invalidEscape (escaped : CodePoint)
  /-- A code point is asked for where the text has come to its end. -/
  | pastEnd
  deriving DecidableEq, Repr

namespace ReadCause

/-- The wording of a cause. It says nothing about the place, which is the offset's business. -/
def message : ReadCause → Text
  | noDirective name => "no @" ++ name ++ " attribute found"
  | noDeclaration => "expected a declaration after the attribute"
  | multilineString => "multi-line string literals are not supported"
  | unterminatedString => "unterminated string literal"
  | unbalanced closed => "unbalanced '" ++ [CodePoint.scalar closed.closer] ++ "'"
  | unclosed opened => "unclosed '" ++ [CodePoint.scalar opened.opener] ++ "'"
  | noExpression => "expected an expression"
  | invalidUnicodeEscape => "invalid unicode escape"
  | invalidEscape escaped => "invalid escape sequence '\\" ++ [escaped] ++ "'"
  | pastEnd => "string index out of range"

end ReadCause

/-- A cause and the offset of the code point that it concerns. -/
structure ReadFault where
  cause : ReadCause
  offset : Nat
  deriving DecidableEq, Repr

/-- What comes of reading a text: what was read, or the first fault. -/
abbrev Reading (α : Type) := Except ReadFault α

/-- Outcomes are compared by kind and content. -/
instance decidableEqExcept {ε α : Type} [DecidableEq ε] [DecidableEq α] : DecidableEq (Except ε α)
  | .ok a, .ok b =>
    if h : a = b then isTrue (by rw [h]) else isFalse (by rintro ⟨⟩; exact h rfl)
  | .error e, .error f =>
    if h : e = f then isTrue (by rw [h]) else isFalse (by rintro ⟨⟩; exact h rfl)
  | .ok _, .error _ => isFalse (by rintro ⟨⟩)
  | .error _, .ok _ => isFalse (by rintro ⟨⟩)

namespace Reading

/-- A reading of a piece as a reading of the text that the piece was cut from, `offset` code points
after its start. What was read does not change by it. -/
def moved {α : Type} (offset : Nat) : Reading α → Reading α
  | .ok a => .ok a
  | .error fault => .error { fault with offset := offset + fault.offset }

/-- A reading in two steps succeeds just when both steps do. -/
theorem bind_eq_ok {α β : Type} {first : Reading α} {next : α → Reading β} {b : β} :
    (first >>= next) = .ok b ↔ ∃ a, first = .ok a ∧ next a = .ok b := by
  cases first with
  | ok a => simp [bind, Except.bind]
  | error fault => simp [bind, Except.bind]

theorem moved_eq_ok {α : Type} {offset : Nat} {r : Reading α} {a : α} :
    r.moved offset = .ok a ↔ r = .ok a := by
  cases r <;> simp [moved]

theorem moved_zero {α : Type} (r : Reading α) : r.moved 0 = r := by
  cases r <;> simp [moved]

theorem moved_moved {α : Type} (m n : Nat) (r : Reading α) :
    (r.moved m).moved n = r.moved (n + m) := by
  cases r <;> simp [moved, Nat.add_assoc]

end Reading

end MemberSynthesis
