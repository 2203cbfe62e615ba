import MemberSynthesis.Proofs.Outcome
import MemberSynthesis.Proofs.Source.Within
import MemberSynthesis.Proofs.Text.Basic

/-!
# Joining and splitting

A list is cut at its commas. Texts that are joined with commas are found again, each at its place
(`piecesFrom_listed`), provided that no piece ends in a text of its own (`Item.IsPiece`). Lists are
written with a comma and a space, which stands in front of the next text then: **the split gives
back the texts that were joined** (`split_joined`), if none is blank.

Being a piece is stated for everything that may follow, because a text in a list is followed by the
rest of the list, and the induction over the list needs it there. What may not follow is a quote:
behind an empty string it would make the start of a multi-line one. In a list that never happens,
since a comma or the end follows.

The last text must not be blank, as a blank last piece is dropped; and for simplicity none may be.
Which texts exactly can be found again is the subject of the module on lists, in terms of what
stands before their commas.
-/

set_option autoImplicit false

namespace MemberSynthesis

namespace Opening

/-! ## Code points without a say -/

/-- Quotes, brackets and commas are all that scanners mind outside of string literals. -/
theorem isPlain_of_forall_ne {c : CodePoint}
    (h : ∀ d ∈ (['"', ',', '(', '[', '\x7b', ')', ']', '\x7d'] : Text), c ≠ d) :
    isPlain c ∧ c ≠ ',' := by
  have hopener : Bracket.ofOpener? c = none := by
    rw [Option.eq_none_iff_forall_ne_some]
    intro b hb
    refine h b.opener ?_ (Bracket.ofOpener?_eq_some_iff.1 hb)
    cases b <;> decide
  have hcloser : Bracket.ofCloser? c = none := by
    rw [Option.eq_none_iff_forall_ne_some]
    intro b hb
    refine h b.closer ?_ (Bracket.ofCloser?_eq_some_iff.1 hb)
    cases b <;> decide
  refine ⟨?_, h ',' (by decide)⟩
  simp [isPlain, hopener, hcloser, h '"' (by decide)]

theorem isPlain_of_isWord {c : CodePoint} (h : c.isWord) : isPlain c ∧ c ≠ ',' := by
  have hnone : ∀ d ∈ (['"', ',', '(', '[', '\x7b', ')', ']', '\x7d'] : Text), d.isWord = false := by
    decide
  apply isPlain_of_forall_ne
  rintro d hd rfl
  rw [hnone c hd] at h
  cases h

theorem isPlain_of_isBlank {c : CodePoint} (h : c.isBlank) : isPlain c ∧ c ≠ ',' := by
  have hnone : ∀ d ∈ (['"', ',', '(', '[', '\x7b', ')', ']', '\x7d'] : Text), d.isBlank =
      false := by
    decide
  apply isPlain_of_forall_ne
  rintro d hd rfl
  rw [hnone c hd] at h
  cases h

end Opening

namespace Item

/-! ## Pieces -/

/-- No piece of a list ends in the text, which leaves nothing entered. What follows the text must
not start with a quote, since that would be read together with a quote at its end. -/
def IsPiece (text : Text) : Prop :=
  ∀ ⦃rest piece : Text⦄ ⦃items : List Item⦄ ⦃offset : Nat⦄,
    rest.head? ≠ some (CodePoint.scalar '"') →
    piecesFrom [] (offset + text.length) rest = .ok (piece, items) →
    piecesFrom [] offset (text ++ rest) = .ok (text ++ piece, items)

/-- Before a piece, a code point that neither opens nor closes anything and is no comma belongs to
it. -/
theorem isPiece_cons {c : CodePoint} {text : Text} (hc : Opening.isPlain c) (hcomma : c ≠ ',')
    (h : IsPiece text) : IsPiece (c :: text) := by
  intro rest piece items offset hquote hrest
  rw [List.length_cons, Nat.add_comm _ 1, ← Nat.add_assoc] at hrest
  have hmore := h hquote hrest
  rw [List.cons_append, piecesFrom, if_neg (by simp [hcomma]),
    Opening.advance_of_isPlain Opening.isOutside_nil hc]
  show (piecesFrom [] (offset + 1) (text ++ rest) >>= _) = _
  rw [hmore]
  rfl

theorem isPiece_append {before text : Text} (hbefore : ∀ c ∈ before, Opening.isPlain c ∧ c ≠ ',')
    (h : IsPiece text) : IsPiece (before ++ text) := by
  induction before with
  | nil => exact h
  | cons c more ih =>
    obtain ⟨hc, hcomma⟩ := hbefore c List.mem_cons_self
    exact isPiece_cons hc hcomma (ih fun d hd => hbefore d (List.mem_cons_of_mem c hd))

/-- A group is a piece: between its first and its last code point something is entered, so that no
comma there counts. -/
theorem isPiece_of_isGroup {first final : CodePoint} {inner : Text} (hcomma : first ≠ ',')
    (h : ∀ {rest : Text} {offset : Nat}, rest.head? ≠ some (CodePoint.scalar '"') →
      Opening.IsGroup rest [] offset first inner final) :
    IsPiece (first :: (inner ++ [final])) := by
  intro rest piece items offset hquote hrest
  have hlength : offset + (first :: (inner ++ [final])).length = offset + 1 + inner.length + 1 := by
    simp only [List.length_cons, List.length_append, List.length_nil]
    omega
  rw [hlength] at hrest
  have hpieces := (h hquote).piecesFrom hcomma hrest
  simpa using hpieces

/-! ## Splitting

Texts are put together by commas and taken apart again. The offsets come along for the faults; only
their number and order count for the split. -/

/-- The item is the text, a space possibly before it. That is how an item of a written list looks:
the first one has no space before it. -/
def Holds (item : Item) (text : Text) : Prop :=
  item.text = text ∨ item.text = CodePoint.scalar ' ' :: text

theorem withoutBlankLast_eq_self : ∀ {items : List Item},
    (∀ item ∈ items.getLast?, item.text.all CodePoint.isBlank = false) →
    withoutBlankLast items = items
  | [], _ => rfl
  | [item], h => by
    rw [withoutBlankLast, if_neg (by simp [h item rfl])]
  | item :: next :: more, h => by
    rw [withoutBlankLast, withoutBlankLast_eq_self fun other hother =>
      h other (by rwa [List.getLast?_cons_cons])]

/-- The texts at their places in a list, a comma between each two. -/
def placed (offset : Nat) : List Text → List Item
  | [] => []
  | text :: more => ⟨offset, text⟩ :: placed (offset + text.length + 1) more

theorem forall₂_placed {texts : List Text} {offset : Nat} :
    List.Forall₂ (fun item text => item.text = text) (placed offset texts) texts := by
  induction texts generalizing offset with
  | nil => exact .nil
  | cons text more ih => exact .cons rfl ih

/-- Texts with a comma between each two are the pieces, each at its place. -/
theorem piecesFrom_listed {text : Text} {more : List Text} {offset : Nat}
    (h : ∀ other ∈ text :: more, IsPiece other) :
    piecesFrom [] offset (Text.joined "," (text :: more)) =
      .ok (text, placed (offset + text.length + 1) more) := by
  induction more generalizing text offset with
  | nil =>
    have hend : piecesFrom [] (offset + text.length) [] = .ok ([], []) := rfl
    have htext := h text List.mem_cons_self (by simp) hend
    rw [List.append_nil] at htext
    rw [Text.joined_singleton, htext]
    rfl
  | cons next more ih =>
    have hcomma : piecesFrom [] (offset + text.length) ("," ++ Text.joined "," (next :: more)) =
        .ok ([], placed (offset + text.length + 1) (next :: more)) := by
      show piecesFrom [] _ (CodePoint.scalar ',' :: Text.joined "," (next :: more)) = _
      rw [piecesFrom, if_pos ⟨rfl, rfl⟩, ih fun other hother => h other
        (List.mem_cons_of_mem _ hother)]
      rfl
    have hquote : (("," : Text) ++ Text.joined "," (next :: more)).head? ≠
        some (CodePoint.scalar '"') := by
      show some (CodePoint.scalar ',') ≠ some (CodePoint.scalar '"')
      decide
    rw [Text.joined_cons _ _ (List.cons_ne_nil _ _), h text List.mem_cons_self hquote hcomma,
      List.append_nil]

theorem joined_cons_cons (c : CodePoint) (separator text : Text) (more : List Text) :
    Text.joined separator ((c :: text) :: more) = c :: Text.joined separator (text :: more) := by
  cases more with
  | nil => rw [Text.joined_singleton, Text.joined_singleton]
  | cons next more =>
    rw [Text.joined_cons _ _ (List.cons_ne_nil _ _), Text.joined_cons _ _ (List.cons_ne_nil _ _),
      List.cons_append]

/-- A space behind the comma is one in front of the next text, so that only commas need to be
considered. -/
theorem joined_space (text : Text) (more : List Text) :
    Text.joined ", " (text :: more) =
      Text.joined "," (text :: more.map (CodePoint.scalar ' ' :: ·)) := by
  induction more generalizing text with
  | nil => rw [List.map_nil, Text.joined_singleton, Text.joined_singleton]
  | cons next more ih =>
    rw [Text.joined_cons _ _ (List.cons_ne_nil _ _), ih, List.map_cons,
      Text.joined_cons _ _ (List.cons_ne_nil _ _), joined_cons_cons]
    rfl

/-- A space before a text does not make it blank or change that it is not. -/
theorem not_all_isBlank_of_holds {items : List Item} {texts : List Text}
    (h : List.Forall₂ Holds items texts)
    (hblank : ∀ text ∈ texts, text.all CodePoint.isBlank = false) :
    ∀ item ∈ items, item.text.all CodePoint.isBlank = false := by
  intro item hitem
  obtain ⟨text, htext, hholds⟩ :=
    Outcome.exists_of_mem_of_forall₂ (p := fun text item => Holds item text) h.flip item hitem
  rcases hholds with heq | heq
  · rw [heq, hblank text htext]
  · rw [heq, List.all_cons, hblank text htext, Bool.and_false]

/-- **The split gives back the texts that were joined**, each with the space that stands before
it. -/
theorem split_joined {texts : List Text} (hpiece : ∀ text ∈ texts, IsPiece text)
    (hblank : ∀ text ∈ texts, text.all CodePoint.isBlank = false) :
    ∃ items, split (Text.joined ", " texts) = .ok items ∧ List.Forall₂ Holds items texts := by
  cases texts with
  | nil => exact ⟨[], rfl, .nil⟩
  | cons text more =>
    have hspaced : ∀ other ∈ text :: more.map (CodePoint.scalar ' ' :: ·), IsPiece other := by
      refine List.forall_mem_cons.2 ⟨hpiece text List.mem_cons_self, ?_⟩
      intro other hother
      obtain ⟨next, hnext, rfl⟩ := List.mem_map.1 hother
      exact isPiece_cons (by decide) (by decide) (hpiece next (List.mem_cons_of_mem text hnext))
    have hall : List.Forall₂ Holds (placed 0 (text :: more.map (CodePoint.scalar ' ' :: ·)))
        (text :: more) :=
      .cons (.inl rfl) ((List.forall₂_map_right_iff.1 forall₂_placed).imp fun _ _ h => .inr h)
    refine ⟨_, ?_, hall⟩
    rw [split, joined_space, piecesFrom_listed hspaced]
    show Except.ok (withoutBlankLast (placed 0 (text :: more.map (CodePoint.scalar ' ' :: ·)))) = _
    -- The last item is no blank one, and so none is dropped.
    rw [withoutBlankLast_eq_self fun item hitem =>
      not_all_isBlank_of_holds hall hblank item (List.mem_of_getLast? hitem)]

/-- The same for texts that are written for something, when the writing is trimmed. -/
theorem split_joined_map {α : Type} {f : α → Text} (hpiece : ∀ a, IsPiece (f a))
    (htrimmed : ∀ a, (f a).IsTrimmed) (xs : List α) :
    ∃ items, split (Text.joined ", " (xs.map f)) = .ok items ∧
      List.Forall₂ (fun item a => item.Holds (f a)) items xs := by
  have hpieces : ∀ text ∈ xs.map f, IsPiece text := by
    intro text htext
    obtain ⟨a, _, rfl⟩ := List.mem_map.1 htext
    exact hpiece a
  have hblank : ∀ text ∈ xs.map f, text.all CodePoint.isBlank = false := by
    intro text htext
    obtain ⟨a, _, rfl⟩ := List.mem_map.1 htext
    exact (htrimmed a).not_all_isBlank
  obtain ⟨items, hitems, hall⟩ := split_joined hpieces hblank
  exact ⟨items, hitems, List.forall₂_map_right_iff.1 hall⟩

end Item

end MemberSynthesis
