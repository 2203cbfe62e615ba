import Mathlib.Data.List.Forall2
import MemberSynthesis.Proofs.Source.Pieces

/-!
# Brackets without strings

In a text without quotes the machine that keeps what is entered only counts brackets. `nesting` is
this machine without offsets, and it also minds the commas outside all brackets, at which a list is
split. A text is **closed** (`Text.IsClosed`) when its brackets match and no comma stands outside
them.

The two machines take the same steps (`advance_of_step`, `step_of_advance`). So what the scanners do
with a text that others follow is known from its nesting alone: a closed text is passed over
wherever it stands (`within_of_isClosed`, `isPiece_of_isClosed`), and a text that is not split has a
nesting (`nesting_of_piecesFrom`).

## Why a second machine

What is entered is kept with the offset at which it was, for the sake of the faults. But the offsets
depend on where a text stands, and a condition on the type of a field must not: it is a condition on
the text. The nesting has none, so being closed can be computed from the text alone, and `decide`
does so. The price is that the two machines have to be shown to agree, in a relation between what is
entered and its kinds (`IsBrackets`), and that a text with quotes in it is not covered: there, what
a bracket means depends on the string it may stand in.
-/

set_option autoImplicit false

namespace MemberSynthesis

namespace Bracket

/-- The brackets that are open after a code point, innermost first. Only the innermost one can be
closed, and only by a bracket of its kind. -/
def step (entered : List Bracket) (c : CodePoint) : Option (List Bracket) :=
  match ofOpener? c with
  | some opened => some (opened :: entered)
  | none =>
    match ofCloser? c with
    | none => some entered
    | some closed =>
      match entered with
      | [] => none
      | opened :: outer => if opened = closed then some outer else none

/-- The brackets that are open after a text, provided that no comma stands where none is. There is
no nesting, either, where a closing bracket does not match. -/
def nesting (entered : List Bracket) : Text → Option (List Bracket)
  | [] => some entered
  | c :: rest =>
    if entered = [] ∧ c = ',' then none
    else (step entered c).bind fun next => nesting next rest

end Bracket

/-- The brackets of the text match, and no comma stands outside them. This can be computed. -/
def Text.IsClosed (text : Text) : Prop := Bracket.nesting [] text = some []

instance (text : Text) : Decidable text.IsClosed :=
  inferInstanceAs (Decidable (Bracket.nesting [] text = some []))

namespace Bracket

/-! ## Nesting code point by code point -/

/-- The first code point of a text with a nesting is no comma outside of brackets, and it takes a
step. -/
theorem nesting_cons_eq_some_iff {entered last : List Bracket} {c : CodePoint} {rest : Text} :
    nesting entered (c :: rest) = some last ↔
      (entered = [] → c ≠ ',') ∧
        ∃ next, step entered c = some next ∧ nesting next rest = some last := by
  rw [nesting]
  split
  · rename_i h
    simp [h.1, h.2]
  · rename_i h
    rw [not_and] at h
    rw [Option.bind_eq_some_iff, and_iff_right h]

/-- Behind a text, the nesting goes on from the brackets that are open there. -/
theorem nesting_append {text more : Text} : ∀ {entered : List Bracket},
    nesting entered (text ++ more) = (nesting entered text).bind fun next => nesting next more := by
  induction text with
  | nil =>
    intro entered
    rfl
  | cons c rest ih =>
    intro entered
    rw [List.cons_append, nesting, nesting]
    split
    · rfl
    · cases step entered c with
      | none => rfl
      | some next => exact ih

/-- Code points that are no brackets and no commas do not change what is open. -/
theorem nesting_of_isPlain {text : Text} {entered : List Bracket}
    (h : ∀ c ∈ text, Opening.isPlain c ∧ c ≠ ',') : nesting entered text = some entered := by
  induction text with
  | nil => rfl
  | cons c rest ih =>
    obtain ⟨hplain, hcomma⟩ := h c List.mem_cons_self
    simp only [Opening.isPlain, Bool.and_eq_true, Option.isNone_iff_eq_none] at hplain
    have hstep : step entered c = some entered := by
      rw [step, hplain.1.2, hplain.2]
    rw [nesting, if_neg (fun h => hcomma h.2), hstep]
    exact ih fun d hd => h d (List.mem_cons_of_mem c hd)

end Bracket

namespace Opening

open MemberSynthesis.Bracket

/-! ## The two machines

What is entered is related to its kinds by forgetting the offsets. In one direction the scanner may
have entered something else before, which a text with a nesting does not touch. -/

/-- What is entered is brackets only, and of these kinds, from the innermost to the outermost. -/
def IsBrackets (entered : List Opening) (kinds : List Bracket) : Prop :=
  List.Forall₂ (fun opening kind => ∃ start, opening = bracket kind start) entered kinds

variable {entered after outer : List Opening} {kinds next : List Bracket} {offset : Nat}
  {c : CodePoint} {rest text : Text}

/-- Inside brackets one is outside string literals, whatever they stand in. -/
theorem isOutside_append (h : IsBrackets entered kinds) (houter : IsOutside outer) :
    IsOutside (entered ++ outer) := by
  cases h with
  | nil => exact houter
  | cons hfirst _ =>
    obtain ⟨start, rfl⟩ := hfirst
    exact isOutside_bracket

/-- Nothing is entered just when there are no kinds, which is when a comma is minded. -/
theorem isEmpty_of_isBrackets (h : IsBrackets entered kinds) : entered = [] ↔ kinds = [] := by
  cases h <;> simp

/-- A step on the kinds is a step of the machine, whatever else is entered. A quote is left out, as
the machine would enter a string. -/
theorem advance_of_step (h : IsBrackets entered kinds) (houter : IsOutside outer) (hc : c ≠ '"')
    (hstep : step kinds c = some next) :
    ∃ after, advance (entered ++ outer) offset c rest = .ok (after ++ outer) ∧
      IsBrackets after next := by
  rw [advance_of_isOutside (isOutside_append h houter), advanceOutside, if_neg hc]
  rw [step] at hstep
  cases hopener : ofOpener? c with
  | some opened =>
    rw [hopener] at hstep
    cases hstep
    exact ⟨bracket opened offset :: entered, rfl, .cons ⟨offset, rfl⟩ h⟩
  | none =>
    rw [hopener] at hstep
    cases hcloser : ofCloser? c with
    | none =>
      rw [hcloser] at hstep
      cases hstep
      exact ⟨entered, rfl, h⟩
    | some closed =>
      rw [hcloser] at hstep
      cases h with
      | nil => cases hstep
      | cons hfirst hmore =>
        obtain ⟨start, rfl⟩ := hfirst
        dsimp only at hstep
        split at hstep
        · rename_i hmatch
          cases hstep
          exact ⟨_, if_pos hmatch, hmore⟩
        · cases hstep

/-- A step of the machine is a step on the kinds: it enters and leaves brackets of the kinds that
the code point says. -/
theorem step_of_advance (h : IsBrackets entered kinds) (hc : c ≠ '"')
    (hadvance : advance entered offset c rest = .ok after) :
    ∃ next, step kinds c = some next ∧ IsBrackets after next := by
  cases hstep : step kinds c with
  | some next =>
    obtain ⟨same, hsame, hkinds⟩ : ∃ after, advance (entered ++ []) offset c rest =
        .ok (after ++ []) ∧ IsBrackets after next := advance_of_step h isOutside_nil hc hstep
    rw [List.append_nil, List.append_nil, hadvance] at hsame
    cases hsame
    exact ⟨next, rfl, hkinds⟩
  | none =>
    -- A bracket would be closed that is not the innermost one, and the machine fails too.
    have houtside := isOutside_append h isOutside_nil
    rw [List.append_nil] at houtside
    rw [advance_of_isOutside houtside, advanceOutside, if_neg hc] at hadvance
    rw [step] at hstep
    cases hopener : ofOpener? c with
    | some opened =>
      rw [hopener] at hstep
      cases hstep
    | none =>
      rw [hopener] at hstep hadvance
      cases hcloser : ofCloser? c with
      | none =>
        rw [hcloser] at hstep
        cases hstep
      | some closed =>
        rw [hcloser] at hstep hadvance
        cases h with
        | nil => cases hadvance
        | cons hfirst hmore =>
          obtain ⟨start, rfl⟩ := hfirst
          dsimp only at hstep hadvance
          split at hstep
          · cases hstep
          · rename_i hmatch
            rw [close, if_neg hmatch] at hadvance
            cases hadvance

/-! ## Passing over a text

Three ways to meet a text: inside other brackets, where commas do not count; where nothing is
entered, where they do; and the way back, from a list that was split to the nesting of a text in
it. -/

/-- Within brackets, a text with a nesting enters and leaves what the nesting says, and never what
is around it. -/
theorem within_of_nesting (hquote : CodePoint.scalar '"' ∉ text) (hne : outer ≠ [])
    (houter : IsOutside outer) :
    ∀ {entered : List Opening} {kinds : List Bracket} {offset : Nat},
      IsBrackets entered kinds → nesting kinds text = some next →
      ∃ after, Within rest (entered ++ outer) offset text (after ++ outer) ∧
        IsBrackets after next := by
  induction text with
  | nil =>
    intro entered kinds offset h hnesting
    cases hnesting
    exact ⟨entered, .nil, h⟩
  | cons c more ih =>
    intro entered kinds offset h hnesting
    obtain ⟨_, mid, hstep, hmore⟩ := nesting_cons_eq_some_iff.1 hnesting
    have hc : c ≠ '"' := fun heq => hquote (heq ▸ List.mem_cons_self)
    obtain ⟨after, hadvance, hafter⟩ := advance_of_step h houter hc hstep
    obtain ⟨last, hwithin, hlast⟩ :=
      ih (fun hmem => hquote (List.mem_cons_of_mem c hmem)) hafter hmore
    exact ⟨last, .cons (by simp [hne]) hadvance hwithin, hlast⟩

/-- **Between brackets, a closed text does not leave them**, and leaves nothing open that it has
entered. -/
theorem within_of_isClosed (h : text.IsClosed) (hquote : CodePoint.scalar '"' ∉ text)
    (hne : outer ≠ []) (houter : IsOutside outer) : Within rest outer offset text outer := by
  obtain ⟨after, hwithin, hafter⟩ := within_of_nesting hquote hne houter .nil h
  cases hafter
  exact hwithin

/-- Where nothing else is entered, a text with a nesting belongs to the piece it begins. The piece
goes on behind it with what the text has left open. -/
theorem piecesFrom_of_nesting (hquote : CodePoint.scalar '"' ∉ text) :
    ∀ {entered : List Opening} {kinds : List Bracket} {offset : Nat},
      IsBrackets entered kinds → Bracket.nesting kinds text = some next →
      ∃ after, IsBrackets after next ∧ ∀ {piece : Text} {items : List Item},
        Item.piecesFrom after (offset + text.length) rest = .ok (piece, items) →
        Item.piecesFrom entered offset (text ++ rest) = .ok (text ++ piece, items) := by
  induction text with
  | nil =>
    intro entered kinds offset h hnesting
    cases hnesting
    exact ⟨entered, h, fun hrest => hrest⟩
  | cons c more ih =>
    intro entered kinds offset h hnesting
    obtain ⟨hcomma, mid, hstep, hmore⟩ := nesting_cons_eq_some_iff.1 hnesting
    have hc : c ≠ '"' := fun heq => hquote (heq ▸ List.mem_cons_self)
    obtain ⟨after, hadvance, hafter⟩ : ∃ after, advance (entered ++ []) offset c (more ++ rest) =
        .ok (after ++ []) ∧ IsBrackets after mid := advance_of_step h isOutside_nil hc hstep
    rw [List.append_nil, List.append_nil] at hadvance
    obtain ⟨last, hlast, hpieces⟩ :=
      ih (fun hmem => hquote (List.mem_cons_of_mem c hmem)) hafter hmore
    refine ⟨last, hlast, fun {piece items} hrest => ?_⟩
    -- The nesting minds the same commas as the scanner that splits.
    have hsplit : ¬ (entered.isEmpty ∧ c = ',') := by
      rw [List.isEmpty_iff, isEmpty_of_isBrackets h]
      exact fun heq => hcomma heq.1 heq.2
    rw [List.length_cons, Nat.add_comm _ 1, ← Nat.add_assoc] at hrest
    rw [List.cons_append, Item.piecesFrom, if_neg hsplit, hadvance]
    show (Item.piecesFrom after (offset + 1) (more ++ rest) >>= _) = _
    rw [hpieces hrest]
    rfl

/-- **A closed text is a piece** of any list that it is written in. -/
theorem isPiece_of_isClosed (h : text.IsClosed) (hquote : CodePoint.scalar '"' ∉ text) :
    Item.IsPiece text := by
  intro rest piece items offset _ hrest
  obtain ⟨after, hafter, hpieces⟩ := piecesFrom_of_nesting hquote .nil h
  cases hafter
  exact hpieces hrest

theorem isPrefix_of_piecesFrom {piece : Text} {items : List Item} :
    ∀ {entered : List Opening} {offset : Nat},
      Item.piecesFrom entered offset text = .ok (piece, items) → piece <+: text := by
  induction text generalizing piece items with
  | nil =>
    intro entered offset h
    unfold Item.piecesFrom at h
    split at h
    · cases h
      exact List.prefix_rfl
    · cases h
  | cons c more ih =>
    intro entered offset h
    unfold Item.piecesFrom at h
    split at h
    · obtain ⟨_, _, h⟩ := Reading.bind_eq_ok.1 h
      cases h
      exact List.nil_prefix
    · obtain ⟨next, _, h⟩ := Reading.bind_eq_ok.1 h
      obtain ⟨_, hmore, h⟩ := Reading.bind_eq_ok.1 h
      cases h
      exact List.cons_prefix_cons.2 ⟨rfl, ih hmore⟩

/-- **A text that is read is split at a comma or has a nesting.** In the first case the piece ends
at the comma, and the next item starts after it; in the second it goes on after the text. The
induction is over the text, and the comma that splits is the first one at which nothing is
entered. -/
theorem nesting_of_piecesFrom (hquote : CodePoint.scalar '"' ∉ text) {items : List Item} :
    ∀ {entered : List Opening} {kinds : List Bracket} {offset : Nat} {piece : Text},
      IsBrackets entered kinds →
      Item.piecesFrom entered offset (text ++ rest) = .ok (piece, items) →
      (∃ more item others, text = piece ++ CodePoint.scalar ',' :: more ∧ items = item :: others ∧
        item.text <+: more ++ rest) ∨
      ∃ next after ending, Bracket.nesting kinds text = some next ∧ IsBrackets after next ∧
        piece = text ++ ending ∧
        Item.piecesFrom after (offset + text.length) rest = .ok (ending, items) := by
  induction text with
  | nil =>
    intro entered kinds offset piece h hpieces
    exact .inr ⟨kinds, entered, piece, rfl, h, rfl, hpieces⟩
  | cons c more ih =>
    intro entered kinds offset piece h hpieces
    have hc : c ≠ '"' := fun heq => hquote (heq ▸ List.mem_cons_self)
    rw [List.cons_append, Item.piecesFrom] at hpieces
    split at hpieces
    · rename_i hsplit
      -- A comma where nothing is entered: the piece ends before it.
      obtain ⟨⟨next, others⟩, hnext, hpieces⟩ := Reading.bind_eq_ok.1 hpieces
      cases hpieces
      refine .inl ⟨more, _, others, ?_, rfl, isPrefix_of_piecesFrom hnext⟩
      rw [hsplit.2, List.nil_append]
    · rename_i hsplit
      obtain ⟨after, hadvance, hpieces⟩ := Reading.bind_eq_ok.1 hpieces
      obtain ⟨⟨inner, others⟩, hmore, hpieces⟩ := Reading.bind_eq_ok.1 hpieces
      cases hpieces
      obtain ⟨next, hstep, hafter⟩ := step_of_advance h hc hadvance
      rw [List.length_cons, Nat.add_comm _ 1, ← Nat.add_assoc]
      rcases ih (fun hmem => hquote (List.mem_cons_of_mem c hmem)) hafter hmore with
        ⟨rest', item, others, htext, hitems, hitem⟩ |
          ⟨last, final, ending, hnesting, hfinal, hpiece, hend⟩
      · refine .inl ⟨rest', item, others, ?_, hitems, hitem⟩
        rw [htext, List.cons_append]
      · refine .inr ⟨last, final, ending, ?_, hfinal, ?_, hend⟩
        · refine nesting_cons_eq_some_iff.2 ⟨?_, next, hstep, hnesting⟩
          rw [List.isEmpty_iff, isEmpty_of_isBrackets h, not_and] at hsplit
          exact hsplit
        · rw [hpiece, List.cons_append]

/-- A comma between brackets belongs to the piece it stands in, and does not change what is
entered. -/
theorem piecesFrom_comma (h : IsBrackets entered kinds) (hne : kinds ≠ []) {piece : Text}
    {items : List Item}
    (hpieces : Item.piecesFrom entered offset (CodePoint.scalar ',' :: rest) = .ok (piece, items)) :
    ∃ ending, piece = CodePoint.scalar ',' :: ending ∧
      Item.piecesFrom entered (offset + 1) rest = .ok (ending, items) := by
  have hsplit : ¬ (entered.isEmpty ∧ CodePoint.scalar ',' = ',') := by
    rw [List.isEmpty_iff, isEmpty_of_isBrackets h]
    exact fun heq => hne heq.1
  have houtside := isOutside_append h isOutside_nil
  rw [List.append_nil] at houtside
  rw [Item.piecesFrom, if_neg hsplit, advance_of_isPlain houtside rfl] at hpieces
  obtain ⟨_, hstep, hpieces⟩ := Reading.bind_eq_ok.1 hpieces
  cases hstep
  obtain ⟨⟨ending, others⟩, hmore, hpieces⟩ := Reading.bind_eq_ok.1 hpieces
  cases hpieces
  exact ⟨ending, rfl, hmore⟩

/-- At a comma where nothing is entered, the piece ends and an item starts behind the comma. -/
theorem piecesFrom_comma_nil {piece : Text} {items : List Item}
    (hpieces : Item.piecesFrom [] offset (CodePoint.scalar ',' :: rest) = .ok (piece, items)) :
    ∃ next others, piece = [] ∧ items = ⟨offset + 1, next⟩ :: others ∧
      Item.piecesFrom [] (offset + 1) rest = .ok (next, others) := by
  rw [Item.piecesFrom, if_pos ⟨rfl, rfl⟩] at hpieces
  obtain ⟨⟨next, others⟩, hmore, hpieces⟩ := Reading.bind_eq_ok.1 hpieces
  cases hpieces
  exact ⟨next, others, rfl, rfl, hmore⟩

/-- At the end of what is read no bracket is open, since a bracket that is open there is a fault. -/
theorem eq_nil_of_piecesFrom (h : IsBrackets entered kinds)
    (hplain : ∀ c ∈ text, isPlain c ∧ c ≠ ',') {piece : Text} {items : List Item}
    (hpieces : Item.piecesFrom entered offset text = .ok (piece, items)) : kinds = [] := by
  induction text generalizing offset piece items with
  | nil =>
    rw [← isEmpty_of_isBrackets h, ← List.isEmpty_iff]
    unfold Item.piecesFrom at hpieces
    split at hpieces
    · assumption
    · cases hpieces
  | cons c more ih =>
    obtain ⟨hc, hcomma⟩ := hplain c List.mem_cons_self
    have houtside := isOutside_append h isOutside_nil
    rw [List.append_nil] at houtside
    rw [Item.piecesFrom, if_neg (fun heq => hcomma heq.2),
      advance_of_isPlain houtside hc] at hpieces
    obtain ⟨_, hstep, hpieces⟩ := Reading.bind_eq_ok.1 hpieces
    cases hstep
    obtain ⟨⟨inner, others⟩, hmore, _⟩ := Reading.bind_eq_ok.1 hpieces
    exact ih (fun d hd => hplain d (List.mem_cons_of_mem c hd)) hmore

theorem piecesFrom_of_not_mem {piece : Text} {items : List Item}
    (hcomma : CodePoint.scalar ',' ∉ text) : ∀ {entered : List Opening} {offset : Nat},
      Item.piecesFrom entered offset text = .ok (piece, items) → piece = text ∧ items = [] := by
  induction text generalizing piece items with
  | nil =>
    intro entered offset h
    unfold Item.piecesFrom at h
    split at h
    · cases h
      exact ⟨rfl, rfl⟩
    · cases h
  | cons c more ih =>
    intro entered offset h
    rw [List.mem_cons, not_or] at hcomma
    rw [Item.piecesFrom, if_neg (fun heq => hcomma.1 heq.2.symm)] at h
    obtain ⟨after, _, h⟩ := Reading.bind_eq_ok.1 h
    obtain ⟨⟨inner, others⟩, hmore, h⟩ := Reading.bind_eq_ok.1 h
    cases h
    obtain ⟨rfl, rfl⟩ := ih hcomma.2 hmore
    exact ⟨rfl, rfl⟩

/-- The last piece reaches to the end of the text, and at least from its last comma on. Which piece
is the last depends on whether the text is split at all. -/
theorem isSuffix_of_piecesFrom {ending piece : Text} {items : List Item}
    (hcomma : CodePoint.scalar ',' ∉ ending) : ∀ {entered : List Opening} {offset : Nat},
      Item.piecesFrom entered offset (text ++ ending) = .ok (piece, items) →
      (items = [] → ending <:+ piece) ∧ ∀ item ∈ items.getLast?, ending <:+ item.text := by
  induction text generalizing piece items with
  | nil =>
    intro entered offset h
    obtain ⟨rfl, rfl⟩ := piecesFrom_of_not_mem hcomma h
    exact ⟨fun _ => List.suffix_rfl, by simp⟩
  | cons c more ih =>
    intro entered offset h
    rw [List.cons_append, Item.piecesFrom] at h
    split at h
    · obtain ⟨⟨next, others⟩, hmore, h⟩ := Reading.bind_eq_ok.1 h
      cases h
      obtain ⟨honly, hlast⟩ := ih hmore
      refine ⟨by simp, fun item hitem => ?_⟩
      -- The piece behind this comma is the last one unless it is split further.
      cases others with
      | nil =>
        cases hitem
        exact honly rfl
      | cons other others =>
        rw [List.getLast?_cons_cons] at hitem
        exact hlast item hitem
    · obtain ⟨after, _, h⟩ := Reading.bind_eq_ok.1 h
      obtain ⟨⟨inner, others⟩, hmore, h⟩ := Reading.bind_eq_ok.1 h
      cases h
      obtain ⟨honly, hlast⟩ := ih hmore
      exact ⟨fun hnil => (honly hnil).trans (List.suffix_cons c inner), hlast⟩

end Opening

end MemberSynthesis
