import MemberSynthesis.Source.Item

/-!
# Reading a stretch of text

The end of a unit and the pieces of a list are both found by the machine that keeps what is entered,
and both do nothing of interest as long as something is. `Opening.Within` says that the machine goes
over a stretch of text in this way, from what is entered before it to what is entered after it.
Stretches are put together by `Within.append`, and both scanners go over them at once
(`unitEndFrom_of_within`, `piecesFrom_of_within`). So **a text has to be followed code point by code
point only once**, however many scanners read it.

A **group** (`Opening.IsGroup`) is the smallest such text that can also stand where nothing is
entered: its first code point enters something and its last one leaves it. It is one unit, and no
piece of a list ends in it.
-/

set_option autoImplicit false

namespace MemberSynthesis

namespace Opening

/-! ## Stretches

The relation that all scanners share, and the two scanners that go over it. -/

/-- Reading the text, which `rest` follows, leads from the first list of openings to the second, and
something is entered before each of its code points. -/
inductive Within (rest : Text) : List Opening → Nat → Text → List Opening → Prop
  | nil {entered : List Opening} {offset : Nat} : Within rest entered offset [] entered
  | cons {entered next last : List Opening} {offset : Nat} {c : CodePoint} {more : Text} :
    entered ≠ [] → advance entered offset c (more ++ rest) = .ok next →
    Within rest next (offset + 1) more last → Within rest entered offset (c :: more) last

variable {rest : Text} {entered next last outer : List Opening} {offset : Nat}

/-- A stretch goes on where another one ends, if that is followed by the first one. -/
theorem Within.append {text more : Text} (h : Within (more ++ rest) entered offset text next)
    (hmore : Within rest next (offset + text.length) more last) :
    Within rest entered offset (text ++ more) last := by
  induction h with
  | nil => exact hmore
  | cons hne hstep _ ih =>
    rw [List.length_cons, Nat.add_comm _ 1, ← Nat.add_assoc] at hmore
    rw [← List.append_assoc] at hstep
    exact .cons hne hstep (ih hmore)

/-- The end of a unit that a stretch begins is looked for after the stretch. -/
theorem unitEndFrom_of_within {text : Text} (h : Within rest entered offset text last)
    (hlast : last ≠ []) :
    unitEndFrom entered offset (text ++ rest) = unitEndFrom last (offset + text.length) rest := by
  induction h with
  | nil => rfl
  | @cons entered next last offset c more _ hstep hmore ih =>
    -- The stretch goes on with something entered, so its first step does not end the unit.
    have hnext : next.isEmpty = false := by
      cases hmore with
      | nil => simpa using hlast
      | cons hne _ _ => simpa using hne
    rw [List.cons_append, unitEndFrom, hstep]
    show (if next.isEmpty then _ else unitEndFrom next (offset + 1) (more ++ rest)) = _
    rw [hnext, if_neg (by decide), ih hlast, List.length_cons, Nat.add_assoc, Nat.add_comm 1]

/-- No piece ends in a stretch. -/
theorem piecesFrom_of_within {text piece : Text} {items : List Item}
    (h : Within rest entered offset text last)
    (hrest : Item.piecesFrom last (offset + text.length) rest = .ok (piece, items)) :
    Item.piecesFrom entered offset (text ++ rest) = .ok (text ++ piece, items) := by
  induction h with
  | nil => exact hrest
  | @cons entered next last offset c more hne hstep _ ih =>
    rw [List.length_cons, Nat.add_comm _ 1, ← Nat.add_assoc] at hrest
    rw [List.cons_append, Item.piecesFrom, if_neg (by simp [hne]), hstep]
    show (Item.piecesFrom next (offset + 1) (more ++ rest) >>= _) = _
    rw [ih hrest]
    rfl

/-! ## Steps outside string literals

Brackets and quotes are all that count there, and what is entered is changed by nothing else. -/

/-- No string literal is the innermost opening. What lies below may be one, as inside an
interpolation. -/
def IsOutside : List Opening → Prop
  | [] => True
  | bracket .. :: _ => True
  | string _ :: _ => False
  | escape _ :: _ => False

theorem isOutside_nil : IsOutside [] := trivial

theorem isOutside_bracket {kind : Bracket} {start : Nat} :
    IsOutside (bracket kind start :: outer) :=
  trivial

/-- Outside string literals, a step is one that looks for brackets and quotes. -/
theorem advance_of_isOutside {c : CodePoint} (h : IsOutside entered) :
    advance entered offset c rest = advanceOutside entered offset c rest := by
  cases entered with
  | nil => rfl
  | cons opening outer =>
    cases opening with
    | bracket => rfl
    | string => exact absurd h id
    | escape => exact absurd h id

/-- Whether a code point neither opens nor closes anything. A backslash does not, outside of string
literals. -/
def isPlain (c : CodePoint) : Bool :=
  c ≠ '"' && (Bracket.ofOpener? c).isNone && (Bracket.ofCloser? c).isNone

theorem advance_of_isPlain {c : CodePoint} (h : IsOutside entered) (hc : isPlain c) :
    advance entered offset c rest = .ok entered := by
  simp only [isPlain, Bool.and_eq_true, decide_eq_true_eq, Option.isNone_iff_eq_none] at hc
  rw [advance_of_isOutside h, advanceOutside, if_neg hc.1.1, hc.1.2, hc.2]

theorem within_of_isPlain {text : Text} (hne : entered ≠ []) (h : IsOutside entered)
    (htext : ∀ c ∈ text, isPlain c) : Within rest entered offset text entered := by
  induction text generalizing offset with
  | nil => exact .nil
  | cons c more ih =>
    refine .cons hne (advance_of_isPlain h (htext c List.mem_cons_self)) ?_
    exact ih fun d hd => htext d (List.mem_cons_of_mem c hd)

/-! ## Groups

A group is a stretch with its two ends, and the only kind of text that the readers of literals look
for. -/

/-- The text, which `rest` follows, is a group: its first code point enters something, which stays
entered up to its last code point and is left there. -/
def IsGroup (rest : Text) (outer : List Opening) (offset : Nat) (first : CodePoint) (inner : Text)
    (final : CodePoint) : Prop :=
  ∃ opening, advance outer offset first (inner ++ final :: rest) = .ok (opening :: outer) ∧
    Within (final :: rest) (opening :: outer) (offset + 1) inner (opening :: outer) ∧
    advance (opening :: outer) (offset + 1 + inner.length) final rest = .ok outer

variable {first final : CodePoint} {inner : Text}

theorem IsGroup.within (h : IsGroup rest outer offset first inner final) (hne : outer ≠ []) :
    Within rest outer offset (first :: (inner ++ [final])) outer := by
  obtain ⟨opening, hfirst, hinner, hfinal⟩ := h
  have hend : Within rest (opening :: outer) (offset + 1 + inner.length) [final] outer :=
    .cons (List.cons_ne_nil _ _) hfinal .nil
  refine .cons hne ?_ (.append hinner hend)
  rw [List.append_assoc]
  exact hfirst

/-- A group is a unit: its last code point is the first at which nothing is entered any more. -/
theorem IsGroup.unitEndFrom (h : IsGroup rest [] offset first inner final) :
    unitEndFrom [] offset (first :: (inner ++ final :: rest)) =
      .ok (offset + 1 + inner.length) := by
  obtain ⟨opening, hfirst, hinner, hfinal⟩ := h
  have hend := unitEndFrom_of_within hinner (List.cons_ne_nil _ _)
  rw [Opening.unitEndFrom, hfirst]
  show (Opening.unitEndFrom [opening] (offset + 1) (inner ++ final :: rest)) = _
  rw [hend, Opening.unitEndFrom, hfinal]
  rfl

/-- No piece ends in a group. -/
theorem IsGroup.piecesFrom {piece : Text} {items : List Item}
    (h : IsGroup rest [] offset first inner final) (hcomma : first ≠ ',')
    (hrest : Item.piecesFrom [] (offset + 1 + inner.length + 1) rest = .ok (piece, items)) :
    Item.piecesFrom [] offset (first :: (inner ++ final :: rest)) =
      .ok (first :: (inner ++ final :: piece), items) := by
  obtain ⟨opening, hfirst, hinner, hfinal⟩ := h
  have hend : Item.piecesFrom [opening] (offset + 1 + inner.length) (final :: rest) =
      .ok (final :: piece, items) := by
    rw [Item.piecesFrom, if_neg (by simp), hfinal]
    show (Item.piecesFrom [] (offset + 1 + inner.length + 1) rest >>= _) = _
    rw [hrest]
    rfl
  rw [Item.piecesFrom, if_neg (by simp [hcomma]), hfirst]
  show (Item.piecesFrom [opening] (offset + 1) (inner ++ final :: rest) >>= _) = _
  rw [piecesFrom_of_within hinner hend]
  rfl

end Opening

namespace Text

theorem inside?_of_isGroup {first final : CodePoint} {inner : Text}
    (h : Opening.IsGroup [] [] 0 first inner final) :
    inside? (first :: (inner ++ [final])) = .ok (some inner) := by
  have hend : unitEnd (first :: (inner ++ [final])) = .ok (1 + inner.length) := by
    rw [unitEnd, h.unitEndFrom, Nat.zero_add]
  rw [inside?, hend]
  show Except.ok (if 1 + inner.length + 1 = (first :: (inner ++ [final])).length then
    some ((first :: (inner ++ [final])).drop 1).dropLast else none) = _
  rw [if_pos (by simp; omega)]
  simp

end Text

end MemberSynthesis
