import MemberSynthesis.Source.Item
import MemberSynthesis.Source.StringLiteral

/-!
# Expressions

An argument is a string literal, an array of expressions, or something that is kept as it is
written. Which of the three a text is depends on its first code point and on whether its first unit
is all of it: `"a" + "b"` starts with a quote and is no string literal.

Nothing is refused for being another form. A text that starts with neither a quote nor a square
bracket is kept without a look at it, balanced or not, as far as it was cut out of something that
could be scanned. Faults come from strings and from arrays only, and from the absence of any
expression.

An array is read by reading its items, which are texts cut out of it, and each of them is shorter
than the array. That is the measure of the recursion (`length_of_arrayItems?`). Without it the
recursion is `readTrimmed_array`, and this is what proofs about arrays use.
-/

set_option autoImplicit false

namespace MemberSynthesis

/-- An expression, as far as a directive needs to know it. -/
inductive Expression where
  /-- A string literal: its content, and whether interpolations occur in it. -/
  | string (value : Text) (interpolated : Bool)
  /-- An array literal. -/
  | array (elements : List Expression)
  /-- Any other expression, as it is written. -/
  | raw (text : Text)
  deriving Repr

namespace Expression

/-! ## Equality of expressions is decidable -/

mutual

/-- Decides whether two expressions are equal. -/
def decEq : (a b : Expression) → Decidable (a = b)
  | string v i, string w j =>
    if h : v = w ∧ i = j then isTrue (by rw [h.1, h.2])
    else isFalse (by rintro ⟨⟩; exact h ⟨rfl, rfl⟩)
  | array xs, array ys =>
    match decEqList xs ys with
    | isTrue h => isTrue (by rw [h])
    | isFalse h => isFalse (by rintro ⟨⟩; exact h rfl)
  | raw s, raw t => if h : s = t then isTrue (by rw [h]) else isFalse (by rintro ⟨⟩; exact h rfl)
  | string .., array .. => isFalse (by rintro ⟨⟩)
  | string .., raw .. => isFalse (by rintro ⟨⟩)
  | array .., string .. => isFalse (by rintro ⟨⟩)
  | array .., raw .. => isFalse (by rintro ⟨⟩)
  | raw .., string .. => isFalse (by rintro ⟨⟩)
  | raw .., array .. => isFalse (by rintro ⟨⟩)

/-- Decides whether two lists of expressions are equal. -/
def decEqList : (xs ys : List Expression) → Decidable (xs = ys)
  | [], [] => isTrue rfl
  | [], _ :: _ => isFalse (by rintro ⟨⟩)
  | _ :: _, [] => isFalse (by rintro ⟨⟩)
  | x :: xs, y :: ys =>
    match decEq x y, decEqList xs ys with
    | isTrue h, isTrue hs => isTrue (by rw [h, hs])
    | isFalse h, _ => isFalse (by rintro ⟨⟩; exact h rfl)
    | _, isFalse hs => isFalse (by rintro ⟨⟩; exact hs rfl)

end

instance : DecidableEq Expression := decEq

/-! ## Reading -/

/-- The items of an array literal, if the text is one from its first code point to its last. It may
also turn out to be more than one, with something behind it. -/
def arrayItems? (text : Text) : Reading (Option (List Item)) := do
  match ← Text.inside? text with
  | none => return none
  | some inner =>
    let items ← Reading.moved 1 (Item.split inner)
    return some items

theorem length_of_arrayItems? {text : Text} {items : List Item}
    (h : arrayItems? text = .ok (some items)) {item : Item} (hi : item ∈ items) :
    item.text.length < text.length := by
  obtain ⟨inner?, hin, hs⟩ := Reading.bind_eq_ok.1 h
  cases inner? with
  | none => cases hs
  | some inner =>
    obtain ⟨split, hmoved, hr⟩ := Reading.bind_eq_ok.1 hs
    cases hr
    exact Nat.lt_of_le_of_lt (Item.length_of_mem_split (Reading.moved_eq_ok.1 hmoved) hi)
      (Text.length_of_inside? hin)

/-- The expression of a text that neither starts nor ends with a blank. Every element of an array is
read on its own, and a fault in one is a fault of the array. -/
def readTrimmed (text : Text) : Reading Expression :=
  match text.head? with
  | none => .error ⟨.noExpression, 0⟩
  | some c =>
    if c = '"' then do
      match ← Text.inside? text with
      -- More follows the string, so the text is an expression of another form.
      | none => return raw text
      | some inner =>
        let content ← Reading.moved 1 (StringContent.read inner)
        return string content.value content.interpolated
    else if c = '[' then
      match hfound : arrayItems? text with
      | .error fault => .error fault
      | .ok none => .ok (raw text)
      | .ok (some items) => do
        let elements ← items.attach.mapM fun ⟨item, hmem⟩ =>
          have : item.text.trim.length < text.length :=
            Nat.lt_of_le_of_lt (Text.length_trim_le _) (length_of_arrayItems? hfound hmem)
          Reading.moved (1 + item.offset + item.text.leadingBlanks) (readTrimmed item.text.trim)
        return array elements
    else .ok (raw text)
termination_by text.length

/-- The expression of an item, blanks around it ignored. They count for the place of a fault. -/
def read (item : Text) : Reading Expression :=
  Reading.moved item.leadingBlanks (readTrimmed item.trim)

/-- An array is read item by item, without the bound on their lengths that the recursion carries
along. -/
theorem readTrimmed_array {text : Text} {items : List Item} (hc : text.head? = some (.scalar '['))
    (h : arrayItems? text = .ok (some items)) :
    readTrimmed text = (do
      let elements ← items.mapM fun item => Reading.moved (1 + item.offset) (read item.text)
      return array elements) := by
  rw [readTrimmed, hc]
  simp only [reduceIte]
  rw [if_neg (by decide)]
  split
  · rename_i h'
    rw [h] at h'
    cases h'
  · rename_i h'
    rw [h] at h'
    cases h'
  · rename_i found h'
    rw [h] at h'
    cases h'
    simp [read, Reading.moved_moved]

end Expression

end MemberSynthesis
