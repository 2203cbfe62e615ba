import MemberSynthesis.Proofs.Source.Blame
import MemberSynthesis.Proofs.Source.Grammar

/-!
# Brackets and literals at an offset

Where a bracket stands in a text, `Text.closerOf` looks for the one that closes it, and where a
quote stands, `Text.literalEnd` looks for the end of the string literal. Both count offsets in the
whole text. **They find just what the grammar has there** (`closerOf_and_literalEnd`), in a text cut
at two offsets, so what they find is unique; and where the grammar has nothing, they fail with a
fault that has its place in the text.

The grammar speaks about texts and not about offsets, so most of this module is translation: a group
at two offsets is a text with a bracket at both ends (`isGroupAt_iff`), and a literal at two offsets
is one that stands in front of what follows (`isLiteralAt_iff`). What follows matters, since three
quotes in a row start no literal. At an offset where neither a bracket nor a quote stands, nothing
is claimed here.
-/

set_option autoImplicit false

namespace MemberSynthesis

namespace Text

open Grammar (Balanced StringLiteral)

/-! ## Cut at two offsets -/

/-- The offset of the bracket that closes the one at an offset. -/
def closerOf (text : Text) (i : Nat) : Reading Nat := do
  let last ← Reading.moved i (unitEnd (text.drop i))
  return i + last

/-- The offset right after the string literal that opens at an offset. -/
def literalEnd (text : Text) (i : Nat) : Reading Nat := do
  let last ← Reading.moved i (unitEnd (text.drop i))
  return i + last + 1

/-- At `j` stands the bracket that closes a bracket at `i`, and what stands between them is balanced
in place. -/
structure IsGroupAt (text : Text) (kind : Bracket) (i j : Nat) : Prop where
  lt : i < j
  closer : text[j]? = some (CodePoint.scalar kind.closer)
  balanced : Balanced ((text.take j).drop (i + 1)) (text.drop j)

/-- The text from `i` to `e` is a string literal in place, in front of what follows it. -/
structure IsLiteralAt (text : Text) (i e : Nat) : Prop where
  le : e ≤ text.length
  literal : StringLiteral ((text.take e).drop i) (text.drop e)

variable {text : Text} {i j e : Nat}

/-- What stands at an offset is what is cut out from there, by its length. -/
theorem drop_eq_append_iff {piece after : Text} :
    text.drop i = piece ++ after ↔
      (text.take (i + piece.length)).drop i = piece ∧ text.drop (i + piece.length) = after := by
  rw [List.drop_take, Nat.add_sub_cancel_left, ← List.drop_drop]
  constructor
  · intro h
    rw [h]
    exact ⟨List.take_left, List.drop_left⟩
  · rintro ⟨hpiece, hafter⟩
    have hwhole := List.take_append_drop piece.length (text.drop i)
    rw [hpiece, hafter] at hwhole
    exact hwhole.symm

theorem drop_eq_cons_of_getElem? {c : CodePoint} (h : text[i]? = some c) :
    text.drop i = c :: text.drop (i + 1) := by
  obtain ⟨hi, rfl⟩ := List.getElem?_eq_some_iff.1 h
  exact List.drop_eq_getElem_cons hi

theorem length_drop_take (hj : j ≤ text.length) : ((text.take j).drop i).length = j - i := by
  rw [List.length_drop, List.length_take, Nat.min_eq_left hj]

/-- A group at two offsets, in terms of the text behind the first one. -/
theorem isGroupAt_iff {kind : Bracket} :
    text.IsGroupAt kind i j ↔
      ∃ inner after, text.drop (i + 1) = inner ++ CodePoint.scalar kind.closer :: after ∧
        Balanced inner (CodePoint.scalar kind.closer :: after) ∧ j = i + (inner.length + 1) := by
  constructor
  · rintro ⟨hlt, hcloser, hbalanced⟩
    have hj : j < text.length := (List.getElem?_eq_some_iff.1 hcloser).1
    have hlength : ((text.take j).drop (i + 1)).length = j - (i + 1) :=
      length_drop_take (Nat.le_of_lt hj)
    have hdrop := drop_eq_cons_of_getElem? hcloser
    rw [hdrop] at hbalanced
    refine ⟨_, text.drop (j + 1), drop_eq_append_iff.2 ⟨?_, ?_⟩, hbalanced, ?_⟩
    · rw [hlength, Nat.add_sub_cancel' hlt]
    · rw [hlength, Nat.add_sub_cancel' hlt, hdrop]
    · omega
  · rintro ⟨inner, after, hdrop, hbalanced, rfl⟩
    obtain ⟨hinner, hafter⟩ := drop_eq_append_iff.1 hdrop
    have hsum : i + (inner.length + 1) = i + 1 + inner.length := by omega
    rw [← hsum] at hinner hafter
    refine ⟨by omega, ?_, ?_⟩
    · rw [← List.head?_drop, hafter, List.head?_cons]
    · rwa [hinner, hafter]

/-- A literal at two offsets, in terms of the text from the first one on. -/
theorem isLiteralAt_iff (hi : i ≤ text.length) :
    text.IsLiteralAt i e ↔
      ∃ literal after, text.drop i = literal ++ after ∧ StringLiteral literal after ∧
        e = i + literal.length := by
  constructor
  · rintro ⟨hle, hliteral⟩
    have hlength : ((text.take e).drop i).length = e - i := length_drop_take hle
    have hpos : 0 < ((text.take e).drop i).length := by
      obtain ⟨items, hitems, _⟩ := hliteral.isGroup 0
      rw [hitems]
      exact Nat.succ_pos _
    have hsum : i + (e - i) = e := by omega
    refine ⟨_, text.drop e, drop_eq_append_iff.2 ⟨?_, ?_⟩, hliteral, ?_⟩
    · rw [hlength, hsum]
    · rw [hlength, hsum]
    · rw [hlength, hsum]
  · rintro ⟨literal, after, hdrop, hliteral, rfl⟩
    obtain ⟨hpiece, hafter⟩ := drop_eq_append_iff.1 hdrop
    refine ⟨?_, ?_⟩
    · have hlength := congrArg List.length hdrop
      rw [List.length_drop, List.length_append] at hlength
      omega
    · rwa [hpiece, hafter]

/-! ## What is found -/

/-- What is found for a bracket is what the grammar has there. -/
theorem closerOf_eq_ok_iff {kind : Bracket} (h : text[i]? = some (CodePoint.scalar kind.opener)) :
    text.closerOf i = .ok j ↔ text.IsGroupAt kind i j := by
  rw [closerOf, Reading.bind_eq_ok, isGroupAt_iff]
  simp only [Reading.moved_eq_ok, drop_eq_cons_of_getElem? h, Grammar.unitEnd_opener_iff]
  constructor
  · rintro ⟨last, ⟨inner, after, hdrop, hinner, rfl⟩, hj⟩
    cases hj
    exact ⟨inner, after, hdrop, hinner, rfl⟩
  · rintro ⟨inner, after, hdrop, hinner, rfl⟩
    exact ⟨_, ⟨inner, after, hdrop, hinner, rfl⟩, rfl⟩

/-- The same for a quote and the end of its literal. -/
theorem literalEnd_eq_ok_iff (h : text[i]? = some (CodePoint.scalar '"')) :
    text.literalEnd i = .ok e ↔ text.IsLiteralAt i e := by
  have hi : i ≤ text.length := Nat.le_of_lt (List.getElem?_eq_some_iff.1 h).1
  rw [literalEnd, Reading.bind_eq_ok, isLiteralAt_iff hi]
  simp only [Reading.moved_eq_ok, drop_eq_cons_of_getElem? h, Grammar.unitEnd_quote_iff]
  constructor
  · rintro ⟨last, ⟨literal, after, hdrop, hliteral, hlength⟩, he⟩
    cases he
    exact ⟨literal, after, hdrop, hliteral, by omega⟩
  · rintro ⟨literal, after, hdrop, hliteral, rfl⟩
    obtain ⟨items, rfl, _⟩ := hliteral.isGroup 0
    refine ⟨_, ⟨_, after, hdrop, hliteral, rfl⟩, ?_⟩
    exact congrArg Except.ok (Nat.add_assoc i _ 1)

/-- Where no unit is found, there is a fault with its place in the text, whatever was to be made of
the unit. -/
theorem exists_fault_of_forall_ne_ok {next : Nat → Nat} (hi : i < text.length)
    (h : ∀ k, (Reading.moved i (unitEnd (text.drop i)) >>= fun last => pure (next last)) ≠ .ok k) :
    ∃ fault, (Reading.moved i (unitEnd (text.drop i)) >>= fun last => pure (next last)) =
      .error fault ∧ fault.IsPlacedIn text := by
  cases hunit : unitEnd (text.drop i) with
  | ok last =>
    rw [hunit] at h
    exact absurd rfl (h (next last))
  | error fault =>
    have hplaced := (ReadFault.isPlacedIn_of_unitEnd (by simpa using hi) hunit).append (text.take i)
    rw [List.take_append_drop, List.length_take, Nat.min_eq_left (Nat.le_of_lt hi)] at hplaced
    exact ⟨_, rfl, hplaced⟩

/-- **The scanner accepts exactly its grammar.** The bracket that closes one is found just where the
grammar has it, and so is the end of a string literal; where the grammar has none, the outcome is a
fault with its place in the text. -/
theorem closerOf_and_literalEnd (text : Text) (i : Nat) :
    (∀ kind : Bracket, text[i]? = some (CodePoint.scalar kind.opener) →
      (∀ j, text.closerOf i = .ok j ↔ text.IsGroupAt kind i j) ∧
        ((∀ j, ¬ text.IsGroupAt kind i j) →
          ∃ fault, text.closerOf i = .error fault ∧ fault.IsPlacedIn text)) ∧
    (text[i]? = some (CodePoint.scalar '"') →
      (∀ e, text.literalEnd i = .ok e ↔ text.IsLiteralAt i e) ∧
        ((∀ e, ¬ text.IsLiteralAt i e) →
          ∃ fault, text.literalEnd i = .error fault ∧ fault.IsPlacedIn text)) := by
  constructor
  · intro kind hopener
    refine ⟨fun j => closerOf_eq_ok_iff hopener, fun hnone => ?_⟩
    apply exists_fault_of_forall_ne_ok (List.getElem?_eq_some_iff.1 hopener).1
    intro j hj
    exact hnone j ((closerOf_eq_ok_iff hopener).1 hj)
  · intro hquote
    refine ⟨fun e => literalEnd_eq_ok_iff hquote, fun hnone => ?_⟩
    apply exists_fault_of_forall_ne_ok (List.getElem?_eq_some_iff.1 hquote).1
    intro e he
    exact hnone e ((literalEnd_eq_ok_iff hquote).1 he)

/-- Brackets and quotes inside an interpolation, inside a string literal, inside brackets; and three
quotes, which start no literal. -/
theorem closerOf_and_literalEnd_interpolation :
    ∃ text : Text, text = "[\"\\(\"]\")\"]" ∧
      text[0]? = some (CodePoint.scalar '[') ∧ text.IsGroupAt .square 0 9 ∧
      text[1]? = some (CodePoint.scalar '"') ∧ text.IsLiteralAt 1 9 ∧
      ∃ quotes : Text, quotes = "\"\"\"" ∧ quotes[0]? = some (CodePoint.scalar '"') ∧
        (∀ e, ¬ quotes.IsLiteralAt 0 e) ∧
        ∃ fault, quotes.literalEnd 0 = .error fault ∧ fault.IsPlacedIn quotes := by
  refine ⟨_, rfl, by decide, ?_, by decide, ?_, _, rfl, by decide, ?_⟩
  · exact (((closerOf_and_literalEnd _ 0).1 .square (by decide)).1 9).1 (by decide +kernel)
  · exact (((closerOf_and_literalEnd _ 1).2 (by decide)).1 9).1 (by decide +kernel)
  · obtain ⟨hiff, hfault⟩ := (closerOf_and_literalEnd ("\"\"\"" : Text) 0).2 (by decide)
    have hnone : ∀ e, ¬ Text.IsLiteralAt ("\"\"\"" : Text) 0 e := by
      intro e he
      have hend := (hiff e).2 he
      have herror : Text.literalEnd ("\"\"\"" : Text) 0 = .error ⟨.multilineString, 0⟩ := by
        decide +kernel
      rw [herror] at hend
      cases hend
    exact ⟨hnone, hfault hnone⟩

end Text

end MemberSynthesis
