import MemberSynthesis.Text.Basic

/-!
# Vocabularies

Several types have finitely many values, each known to the outside by a word: the kinds of
declaration by their keywords, the labels of arguments by their spelling. **No two values share a
word**, so reading a word is the inverse of writing it (`ofWord?_eq_some_iff`), once for all these
types.

The class carries the two proofs that this takes: that the list has all the values, and that their
words are distinct. Both are found by computation for each type. The order of the list has no
influence on what a word stands for; it is that of the messages in which all words are listed.
-/

set_option autoImplicit false

namespace MemberSynthesis

/-- A finite type whose values have words of their own. -/
class Vocabulary (α : Type) where
  /-- The word for a value. -/
  word : α → Text
  /-- All values, in the order in which messages list them. -/
  all : List α
  mem_all : ∀ a, a ∈ all
  nodup_words : (all.map word).Nodup

namespace Vocabulary

variable {α : Type} [Vocabulary α]

/-- The value that a word stands for, if it is a word at all. -/
def ofWord? (w : Text) : Option α := (all : List α).find? fun a => word a = w

/-- All words, in the order of the values. -/
def words (α : Type) [Vocabulary α] : List Text := (all : List α).map word

theorem eq_of_word_eq {values : List α} (hn : (values.map word).Nodup) {a b : α}
    (ha : a ∈ values) (hb : b ∈ values) (h : word a = word b) : a = b := by
  induction values with
  | nil => cases ha
  | cons c more ih =>
    rw [List.map_cons, List.nodup_cons] at hn
    rcases List.mem_cons.1 ha with rfl | ha'
    · rcases List.mem_cons.1 hb with rfl | hb'
      · rfl
      · exact absurd (h ▸ List.mem_map_of_mem hb') hn.1
    · rcases List.mem_cons.1 hb with rfl | hb'
      · exact absurd (h ▸ List.mem_map_of_mem ha') hn.1
      · exact ih hn.2 ha' hb'

theorem word_injective {a b : α} (h : word a = word b) : a = b :=
  eq_of_word_eq nodup_words (mem_all a) (mem_all b) h

/-- **Values and words determine each other.** -/
theorem ofWord?_eq_some_iff {w : Text} {a : α} : ofWord? w = some a ↔ word a = w := by
  constructor
  · intro h
    simpa using List.find?_some h
  · intro h
    cases hf : (ofWord? w : Option α) with
    | none =>
      have := List.find?_eq_none.1 hf a (mem_all a)
      simp [h] at this
    | some b =>
      have hb : word b = w := by simpa using List.find?_some hf
      rw [word_injective (h.trans hb.symm)]

end Vocabulary

end MemberSynthesis
