import MemberSynthesis.Proofs.Source.Passing

/-!
# Cutting a balanced text into items

The inside of a list that is balanced is split without a fault, and **every item is balanced in its
turn** (`split_of_isBalanced`), so that it can be read on its own. The item stands in the inside at
its offset, from a comma or the start up to the next comma or the end: `Item.IsCutFrom` keeps what
is before the item and what is after it.

The recursion that splits carries what is entered along, and puts a comma into the piece or ends the
piece there. That a piece is balanced follows because the scanner has nothing entered at its end,
and had nothing entered at its start: a comma separates only where nothing is entered. No count of
brackets is made and no piece is scanned twice. The one thing to watch is that a piece is judged in
front of what really follows it, a comma or the end, which starts no quote.
-/

set_option autoImplicit false

namespace MemberSynthesis

namespace Item

/-- The text ends, or a comma comes next. -/
def EndsAtComma (after : Text) : Prop := after = [] ∨ ∃ later, after = CodePoint.scalar ',' :: later

/-- The text starts, or a comma came right before. Together with `EndsAtComma` it says that no part
of an item was left out. -/
def StartsAtComma (before : Text) : Prop :=
  before = [] ∨ ∃ earlier, before = earlier ++ [CodePoint.scalar ',']

/-- The item is balanced and stands in the inside between two commas, of which there may be none at
the ends. -/
structure IsCutFrom (inside : Text) (item : Item) : Prop where
  balanced : item.text.IsBalanced
  place : ∃ before after, inside = before ++ (item.text ++ after) ∧ item.offset = before.length ∧
    StartsAtComma before ∧ EndsAtComma after

/-- What is gone over to nothing is cut into pieces. The first of them reaches up to a comma or to
the end, and so do the others, which also start after a comma. The first one is gone over from what
is entered, the others from nothing. -/
theorem exists_pieces {text : Text} : ∀ {entered : List Opening} {offset : Nat},
    Opening.Passes [] entered offset text [] →
    ∃ piece more, piecesFrom entered offset text = .ok (piece, more) ∧
      (∃ after, text = piece ++ after ∧ EndsAtComma after ∧
        Opening.Passes after entered offset piece []) ∧
      ∀ item ∈ more, item.text.IsBalanced ∧
        ∃ before after, text = before ++ CodePoint.scalar ',' :: (item.text ++ after) ∧
          item.offset = offset + (before.length + 1) ∧ EndsAtComma after := by
  induction text with
  | nil =>
    intro entered offset h
    cases h
    exact ⟨[], [], rfl, ⟨[], rfl, .inl rfl, .nil⟩, fun item hitem => absurd hitem List.not_mem_nil⟩
  | cons c rest ih =>
    intro entered offset h
    cases h with
    | @cons _ still _ _ _ _ hstep hrest =>
      obtain ⟨piece, more, hpieces, ⟨after, htext, hafter, hpasses⟩, hmore⟩ := ih hrest
      by_cases hcomma : entered.isEmpty ∧ c = ','
      · -- A piece ends here, and the one that was found in the rest is the next one.
        obtain ⟨hempty, rfl⟩ := hcomma
        rw [List.isEmpty_iff] at hempty
        subst hempty
        cases hstep
        refine ⟨[], ⟨offset + 1, piece⟩ :: more, ?_, ⟨_, rfl, .inr ⟨rest, rfl⟩, .nil⟩, ?_⟩
        · rw [piecesFrom, if_pos ⟨rfl, rfl⟩, hpieces]
          rfl
        · intro item hitem
          rcases List.mem_cons.1 hitem with rfl | hitem
          · exact ⟨Text.isBalanced_of_passes hpasses, [], after, by rw [htext]; rfl, rfl, hafter⟩
          · obtain ⟨hbalanced, before, later, hplace, hoffset, hlater⟩ := hmore item hitem
            refine ⟨hbalanced, ',' :: before, later, by rw [hplace]; rfl, ?_, hlater⟩
            rw [hoffset, List.length_cons]
            omega
      · refine ⟨c :: piece, more, ?_, ⟨after, by rw [htext]; rfl, hafter, ?_⟩, ?_⟩
        · rw [List.append_nil] at hstep
          rw [piecesFrom, if_neg hcomma, hstep]
          show (piecesFrom still (offset + 1) rest >>= _) = _
          rw [hpieces]
          rfl
        · rw [List.append_nil, htext] at hstep
          exact .cons hstep hpasses
        · intro item hitem
          obtain ⟨hbalanced, before, later, hplace, hoffset, hlater⟩ := hmore item hitem
          refine ⟨hbalanced, c :: before, later, by rw [hplace]; rfl, ?_, hlater⟩
          rw [hoffset, List.length_cons]
          omega

/-- **A balanced inside is split without a fault, and into balanced items**, each of which stands in
it at the offset it is given. -/
theorem split_of_isBalanced {inside : Text} (h : inside.IsBalanced) :
    ∃ items, split inside = .ok items ∧ ∀ item ∈ items, item.IsCutFrom inside := by
  obtain ⟨piece, more, hpieces, ⟨after, htext, hafter, hpasses⟩, hmore⟩ := exists_pieces h
  refine ⟨withoutBlankLast (⟨0, piece⟩ :: more), ?_, ?_⟩
  · rw [split, hpieces]
    rfl
  · intro item hitem
    rcases List.mem_cons.1 (mem_of_mem_withoutBlankLast hitem) with rfl | hitem
    · exact ⟨Text.isBalanced_of_passes hpasses, [], after, htext, rfl, .inl rfl, hafter⟩
    · obtain ⟨hbalanced, before, later, hplace, hoffset, hlater⟩ := hmore item hitem
      refine ⟨hbalanced, before ++ [CodePoint.scalar ','], later, ?_, ?_,
        .inr ⟨before, rfl⟩, hlater⟩
      · rw [hplace, List.append_assoc]
        rfl
      · rw [hoffset, List.length_append, Nat.zero_add]
        rfl

end Item

end MemberSynthesis
