import MemberSynthesis.Source.Opening
import MemberSynthesis.Text.Blank

/-!
# Items of a list

The inside of an argument list or of an array is cut at the commas that stand in no bracket and in
no string. A comma may end the list: the **last** piece is left out when it is blank. A blank piece
anywhere else is an item, which no expression can be read from; that fault is found by whoever reads
the item, and not by the cut.

The cut goes through the text once, with the machine that finds units, and it is the machine that
notices an unmatched bracket or a string that is not closed. So an inside that is cut is balanced,
although nobody asks for that. Each piece is kept with its offset, for the faults in it.
-/

set_option autoImplicit false

namespace MemberSynthesis

/-- A piece of a list and the offset at which it starts. -/
structure Item where
  offset : Nat
  text : Text
  deriving DecidableEq, Repr

namespace Item

/-- The rest of the piece that is being read, and the pieces after it. A comma where nothing is
entered ends a piece; anything else belongs to it. -/
def piecesFrom (entered : List Opening) (offset : Nat) : Text → Reading (Text × List Item)
  | [] => if entered.isEmpty then return ([], []) else .error (Opening.unfinished entered)
  | c :: rest =>
    if entered.isEmpty ∧ c = ',' then do
      let (next, more) ← piecesFrom [] (offset + 1) rest
      return ([], ⟨offset + 1, next⟩ :: more)
    else do
      let still ← Opening.advance entered offset c rest
      let (piece, more) ← piecesFrom still (offset + 1) rest
      return (c :: piece, more)

/-- The pieces without a blank one at the end. -/
def withoutBlankLast : List Item → List Item
  | [] => []
  | [item] => if item.text.all CodePoint.isBlank then [] else [item]
  | item :: next :: more => item :: withoutBlankLast (next :: more)

/-- The items of the inside of a list. An empty inside has none, since its only piece is blank. -/
def split (inside : Text) : Reading (List Item) := do
  let (first, more) ← piecesFrom [] 0 inside
  return withoutBlankLast (⟨0, first⟩ :: more)

/-! ## An item is no longer than the text it is cut from -/

theorem length_of_piecesFrom {text : Text} : ∀ {entered : List Opening} {offset : Nat}
    {piece : Text} {more : List Item}, piecesFrom entered offset text = .ok (piece, more) →
      piece.length ≤ text.length ∧ ∀ item ∈ more, item.text.length ≤ text.length := by
  induction text with
  | nil =>
    intro entered offset piece more h
    unfold piecesFrom at h
    split at h
    · cases h
      simp
    · cases h
  | cons c rest ih =>
    intro entered offset piece more h
    unfold piecesFrom at h
    split at h
    · obtain ⟨⟨next, items⟩, hp, hr⟩ := Reading.bind_eq_ok.1 h
      cases hr
      obtain ⟨hn, hm⟩ := ih hp
      refine ⟨by simp, fun item hi => Nat.le_succ_of_le ?_⟩
      rcases List.mem_cons.1 hi with rfl | hi
      · exact hn
      · exact hm item hi
    · obtain ⟨still, _, hs⟩ := Reading.bind_eq_ok.1 h
      obtain ⟨⟨next, items⟩, hp, hr⟩ := Reading.bind_eq_ok.1 hs
      cases hr
      obtain ⟨hn, hm⟩ := ih hp
      exact ⟨by simpa using hn, fun item hi => Nat.le_succ_of_le (hm item hi)⟩

theorem mem_of_mem_withoutBlankLast {item : Item} : ∀ {pieces : List Item},
    item ∈ withoutBlankLast pieces → item ∈ pieces
  | [], h => h
  | [only], h => by
    unfold withoutBlankLast at h
    split at h
    · cases h
    · exact h
  | first :: next :: more, h => by
    rw [withoutBlankLast] at h
    rcases List.mem_cons.1 h with rfl | h
    · exact List.mem_cons_self
    · exact List.mem_cons_of_mem _ (mem_of_mem_withoutBlankLast h)

theorem length_of_mem_split {inside : Text} {items : List Item} (h : split inside = .ok items)
    {item : Item} (hi : item ∈ items) : item.text.length ≤ inside.length := by
  obtain ⟨⟨first, more⟩, hp, hr⟩ := Reading.bind_eq_ok.1 h
  cases hr
  obtain ⟨hn, hm⟩ := length_of_piecesFrom hp
  rcases List.mem_cons.1 (mem_of_mem_withoutBlankLast hi) with rfl | hi
  · exact hn
  · exact hm item hi

end Item

end MemberSynthesis
