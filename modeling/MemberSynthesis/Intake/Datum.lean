import MemberSynthesis.Text.Vocabulary

/-!
# Loosely typed data

What arrives from outside has no type yet: it is built of texts, numbers, truth values, lists and
records, and any of them may stand where another is due. The entries of a record keep the order in
which they arrived, and a key is looked up from the first entry on.

What is taken out of a record is smaller than the record (`sizeOf_of_get?`), which is the measure of
every check that calls itself for a part.
-/

set_option autoImplicit false

namespace MemberSynthesis

/-- A loosely typed value, as it comes out of a decoder. -/
inductive Datum where
  | null
  | boolean (value : Bool)
  | integer (value : Int)
  | real (value : Float)
  | text (value : Text)
  | list (items : List Datum)
  | record (entries : List (Text × Datum))
  deriving Repr, Inhabited

namespace Datum

/-- The value under a key of a record. Nothing else has values under keys. -/
def get? : Datum → Text → Option Datum
  | record entries, key => entries.lookup key
  | _, _ => none

/-- What a value stands for in a vocabulary. Nothing but a text is a word. -/
def word? {α : Type} [Vocabulary α] : Datum → Option α
  | text value => Vocabulary.ofWord? value
  | _ => none

theorem mem_of_lookup {key : Text} {value : Datum} : ∀ {entries : List (Text × Datum)},
    entries.lookup key = some value → (key, value) ∈ entries
  | [], h => by cases h
  | (k, v) :: more, h => by
    rw [List.lookup_cons] at h
    split at h
    · rename_i hk
      cases h
      rw [eq_of_beq hk]
      exact List.mem_cons_self
    · exact List.mem_cons_of_mem _ (mem_of_lookup h)

theorem sizeOf_of_get? {datum value : Datum} {key : Text} (h : datum.get? key = some value) :
    sizeOf value < sizeOf datum := by
  cases datum with
  | record entries =>
    have := List.sizeOf_lt_of_mem (mem_of_lookup h)
    simp only [Prod.mk.sizeOf_spec, record.sizeOf_spec] at *
    omega
  | _ => cases h

end Datum

end MemberSynthesis
