import MemberSynthesis.Proofs.Source.Passing

/-!
# The grammar of units

The scanner is a machine with a stack, and its step says little of what it accepts. The grammar
below says it without a machine. A text is **balanced** (`Grammar.Balanced`) if it is a sequence of
units: code points that are neither quotes nor brackets, string literals, and brackets of one kind
around a balanced text. A **string literal** (`Grammar.StringLiteral`) holds items between its
quotes, one of which may be an interpolation, and that is a balanced text again. Three quotes in a
row start no string literal, and the third of them may stand behind it. So every rule minds what
follows in the source, and a text is judged **in place**.

**The machine accepts just what the grammar derives** (`passes_iff`). One half follows the
derivation. The other follows the run backwards: `Grammar.Leaves` says what the text still to come
has to be if all that is entered is to be left, one step of the machine brings it from the text
after a code point to the text before it (`leaves_of_advance`), and a run that leaves everything
ends with nothing more to say.

Going forward instead, one would have to say what the text *before* a code point is when things are
entered that are not left yet, a derivation with a hole for each of them. Backwards there are no
holes: what is entered is a list of things still to be closed, and `Leaves` is a recursion over that
list.

The two halves are used in different places. What is written by hand, such as an argument list, is
balanced because a derivation is given; what the scanner has come to the end of is taken apart
because a derivation is obtained.
-/

set_option autoImplicit false

namespace MemberSynthesis

namespace Grammar

/-! ## The rules

Three predicates that refer to each other, each with a second text for what follows. A rule puts one
unit before a text, so a derivation is as long as its text has units, and nests where brackets
do. -/

/-- Neither a quote nor a bracket. -/
def IsOrdinary (c : CodePoint) : Prop :=
  c ≠ '"' ∧ ∀ kind : Bracket, c ≠ kind.opener ∧ c ≠ kind.closer

mutual

/-- The first text is balanced where the second one follows it. The unit in front is judged before
the rest of the text and what follows that. -/
inductive Balanced : Text → Text → Prop
  | nil {rest : Text} : Balanced [] rest
  | point {c : CodePoint} {text rest : Text} :
    IsOrdinary c → Balanced text rest → Balanced (c :: text) rest
  | literal {literal text rest : Text} :
    StringLiteral literal (text ++ rest) → Balanced text rest → Balanced (literal ++ text) rest
  | group {kind : Bracket} {inner text rest : Text} :
    Balanced inner (CodePoint.scalar kind.closer :: (text ++ rest)) → Balanced text rest →
    Balanced (CodePoint.scalar kind.opener :: (inner ++ CodePoint.scalar kind.closer :: text)) rest

/-- The first text is a string literal where the second one follows it. If it is empty, then no
third quote may follow. -/
inductive StringLiteral : Text → Text → Prop
  | quoted {items rest : Text} :
    StringItems items (CodePoint.scalar '"' :: rest) →
    ¬ (['"', '"', '"'] : Text) <+:
      CodePoint.scalar '"' :: (items ++ CodePoint.scalar '"' :: rest) →
    StringLiteral (CodePoint.scalar '"' :: (items ++ [CodePoint.scalar '"'])) rest

/-- The first text is what a string literal can hold where the second one follows it: no line feed
and no quote unless behind a backslash, and interpolations. -/
inductive StringItems : Text → Text → Prop
  | nil {rest : Text} : StringItems [] rest
  | point {c : CodePoint} {items rest : Text} :
    c ≠ '"' → c ≠ '\\' → c ≠ '\n' → StringItems items rest → StringItems (c :: items) rest
  | escape {c : CodePoint} {items rest : Text} :
    c ≠ '(' → StringItems items rest → StringItems (CodePoint.scalar '\\' :: c :: items) rest
  | interpolation {inner items rest : Text} :
    Balanced inner (CodePoint.scalar ')' :: (items ++ rest)) → StringItems items rest →
    StringItems
      (CodePoint.scalar '\\' :: CodePoint.scalar '(' :: (inner ++ CodePoint.scalar ')' :: items))
      rest

end

theorem isPlain_iff {c : CodePoint} : Opening.isPlain c ↔ IsOrdinary c := by
  simp only [Opening.isPlain, IsOrdinary, Bool.and_eq_true, decide_eq_true_eq,
    Option.isNone_iff_eq_none, Option.eq_none_iff_forall_ne_some, ne_eq,
    Bracket.ofOpener?_eq_some_iff, Bracket.ofCloser?_eq_some_iff, forall_and, and_assoc]

open Opening (advance isPlain IsOutside IsGroup Passes Within)

/-! ## What is derived is gone over

By recursion on the derivation, one case for each rule. A group is entered, gone over and left
again; the rest is what the scanner does with one code point. -/

mutual

/-- **A balanced text is gone over** from nothing entered to nothing entered, wherever offsets
start. -/
theorem Balanced.passes {text rest : Text} (h : Balanced text rest) (offset : Nat) :
    Passes rest [] offset text [] := by
  match h with
  | .nil => exact .nil
  | .point hc htext =>
    refine .cons ?_ (htext.passes (offset + 1))
    exact Opening.advance_of_isPlain Opening.isOutside_nil (isPlain_iff.2 hc)
  | .literal hliteral htext =>
    obtain ⟨items, rfl, hgroup⟩ := hliteral.isGroup offset
    exact hgroup.passes.append (htext.passes _)
  | .group hinner htext =>
    rw [List.append_cons, ← List.cons_append]
    exact (Opening.isGroup_of_passes (hinner.passes (offset + 1))).passes.append (htext.passes _)

/-- A string literal is a group: the scanner enters it at its first quote, and has left it behind
its last one and not before. -/
theorem StringLiteral.isGroup {literal rest : Text} (h : StringLiteral literal rest)
    (offset : Nat) : ∃ items, literal = CodePoint.scalar '"' :: (items ++ [CodePoint.scalar '"']) ∧
      IsGroup rest [] offset '"' items '"' := by
  match h with
  | @StringLiteral.quoted items _ hitems hopen =>
    refine ⟨items, rfl, .string offset, ?_, hitems.within offset [] (offset + 1), rfl⟩
    rw [advance, Opening.advanceOutside, if_pos rfl, if_neg]
    intro hquotes
    rw [List.isPrefixOf_iff_prefix] at hquotes
    exact hopen (List.cons_prefix_cons.2 ⟨rfl, hquotes⟩)

/-- What a string literal can hold does not leave it, whatever lies below the literal. -/
theorem StringItems.within {items rest : Text} (h : StringItems items rest) (start : Nat)
    (outer : List Opening) (offset : Nat) :
    Within rest (.string start :: outer) offset items (.string start :: outer) := by
  match h with
  | .nil => exact .nil
  | .point hquote hbackslash hfeed hitems =>
    refine .cons (List.cons_ne_nil _ _) ?_ (hitems.within start outer (offset + 1))
    rw [advance, if_neg hbackslash, if_neg hquote, if_neg hfeed]
  | .escape hround hitems =>
    refine .cons (List.cons_ne_nil _ _) rfl (.cons (List.cons_ne_nil _ _) ?_
      (hitems.within start outer (offset + 1 + 1)))
    rw [advance, if_neg hround]
  | @StringItems.interpolation inner items _ hinner hitems =>
    -- The interpolation is a group in round brackets above the literal.
    have hinside : Within (CodePoint.scalar ')' :: (items ++ rest))
        (.bracket .round (offset + 1) :: .string start :: outer) (offset + 1 + 1) inner
        (.bracket .round (offset + 1) :: .string start :: outer) :=
      (hinner.passes (offset + 1 + 1)).within
    refine .cons (List.cons_ne_nil _ _) rfl (.cons (List.cons_ne_nil _ _) rfl ?_)
    exact hinside.append (.cons (List.cons_ne_nil _ _) rfl (hitems.within start outer _))

end

/-! ## What is gone over is derived -/

/-- What the text has to be, in front of `rest`, so that all that is entered is left in it: for each
opening its inside, its end, and then what leaves the others. -/
def Leaves (rest : Text) : List Opening → Text → Prop
  | [], text => Balanced text rest
  | .bracket kind _ :: outer, text =>
    ∃ inner after, text = inner ++ CodePoint.scalar kind.closer :: after ∧
      Balanced inner (CodePoint.scalar kind.closer :: (after ++ rest)) ∧ Leaves rest outer after
  | .string _ :: outer, text =>
    ∃ items after, text = items ++ CodePoint.scalar '"' :: after ∧
      StringItems items (CodePoint.scalar '"' :: (after ++ rest)) ∧ Leaves rest outer after
  | .escape _ :: outer, text =>
    ∃ items after, text = items ++ CodePoint.scalar '"' :: after ∧
      StringItems (CodePoint.scalar '\\' :: items) (CodePoint.scalar '"' :: (after ++ rest)) ∧
      Leaves rest outer after

variable {rest more : Text} {entered next : List Opening} {offset : Nat} {c : CodePoint}

/-- Outside string literals, a unit can be put before what leaves all that is entered. It becomes
part of the innermost inside, or of the text if nothing is entered. -/
theorem Leaves.unit {unit text : Text} (h : Leaves rest entered text) (houtside : IsOutside entered)
    (hunit : ∀ inner after, inner ++ after = text ++ rest → Balanced inner after →
      Balanced (unit ++ inner) after) : Leaves rest entered (unit ++ text) := by
  cases entered with
  | nil => exact hunit text rest rfl h
  | cons top outer =>
    cases top with
    | bracket kind start =>
      obtain ⟨inner, after, rfl, hinner, hafter⟩ := h
      refine ⟨unit ++ inner, after, (List.append_assoc unit inner _).symm, ?_, hafter⟩
      exact hunit inner _ (List.append_assoc inner (_ :: after) rest).symm hinner
    | string => exact absurd houtside id
    | escape => exact absurd houtside id

/-- A code point that enters something outside string literals starts a unit, or it is one. What it
enters is the first thing to be left. -/
theorem leaves_of_advance_nil {new : List Opening} (houtside : IsOutside entered)
    (hstep : advance [] offset c (more ++ rest) = .ok new)
    (h : Leaves rest (new ++ entered) more) : Leaves rest entered (c :: more) := by
  rw [advance, Opening.advanceOutside] at hstep
  split at hstep
  · rename_i hquote
    subst hquote
    split at hstep
    · cases hstep
    · rename_i hopen
      cases hstep
      obtain ⟨items, after, rfl, hitems, hafter⟩ := h
      rw [List.append_cons, ← List.cons_append]
      -- What follows the literal is read with the string left, and the quotes in front are not
      -- three.
      refine hafter.unit houtside fun inner final hsame hinner => .literal (.quoted ?_ ?_) hinner
      · rwa [hsame]
      · intro hquotes
        rw [hsame] at hquotes
        apply hopen
        rw [List.isPrefixOf_iff_prefix, List.append_assoc]
        exact (List.cons_prefix_cons.1 hquotes).2
  · rename_i hquote
    cases hopener : Bracket.ofOpener? c with
    | some opened =>
      rw [hopener] at hstep
      cases hstep
      obtain ⟨inner, after, rfl, hinner, hafter⟩ := h
      rw [Bracket.ofOpener?_eq_some_iff.1 hopener, List.append_cons, ← List.cons_append]
      refine hafter.unit houtside fun text final hsame htext => ?_
      rw [List.cons_append, ← List.append_cons]
      refine .group ?_ htext
      rwa [hsame]
    | none =>
      rw [hopener] at hstep
      cases hcloser : Bracket.ofCloser? c with
      | some closed =>
        rw [hcloser] at hstep
        cases hstep
      | none =>
        rw [hcloser] at hstep
        cases hstep
        -- Neither a quote nor a bracket: the code point is a unit by itself.
        have hc : IsOrdinary c := isPlain_iff.1
          (by simp [Opening.isPlain, hquote, hopener, hcloser])
        have hunit : Leaves rest entered ([c] ++ more) :=
          h.unit houtside fun _ _ _ hinner => .point hc hinner
        exact hunit

/-- **One step of the machine, backwards**: what leaves all that is entered after a code point does
so with the code point before it. The cases are those of the step. -/
theorem leaves_of_advance (hstep : advance entered offset c (more ++ rest) = .ok next)
    (h : Leaves rest next more) : Leaves rest entered (c :: more) := by
  cases entered with
  | nil =>
    rw [← List.append_nil next] at h
    exact leaves_of_advance_nil Opening.isOutside_nil hstep h
  | cons top outer =>
    cases top with
    -- One case for each opening that can be innermost. What is left later comes behind what this
    -- code point leaves or keeps.
    | bracket kind start =>
      rcases Opening.advanceOutside_cases hstep with ⟨new, hnew, rfl⟩ | ⟨_, _, hentered, rfl⟩
      · exact leaves_of_advance_nil Opening.isOutside_bracket hnew h
      · cases hentered
        exact ⟨[], more, rfl, .nil, h⟩
    | string start =>
      rw [advance] at hstep
      split at hstep
      · rename_i hbackslash
        cases hstep
        obtain ⟨items, after, rfl, hitems, hafter⟩ := h
        exact ⟨c :: items, after, rfl, hbackslash ▸ hitems, hafter⟩
      · rename_i hbackslash
        split at hstep
        · rename_i hquote
          cases hstep
          exact ⟨[], more, hquote ▸ rfl, .nil, h⟩
        · rename_i hquote
          split at hstep
          · cases hstep
          · rename_i hfeed
            cases hstep
            obtain ⟨items, after, rfl, hitems, hafter⟩ := h
            exact ⟨c :: items, after, rfl, .point hquote hbackslash hfeed hitems, hafter⟩
    | escape start =>
      rw [advance] at hstep
      split at hstep
      · rename_i hround
        cases hstep
        -- An interpolation has entered a bracket, and the string around it is left behind its
        -- closing bracket.
        obtain ⟨inner, after, rfl, hinner, items, final, rfl, hitems, hfinal⟩ := h
        refine ⟨c :: (inner ++ CodePoint.scalar ')' :: items), final, ?_, ?_, hfinal⟩
        · rw [List.cons_append, List.append_assoc]
          rfl
        · rw [hround]
          refine .interpolation ?_ hitems
          rwa [List.append_assoc] at hinner
      · rename_i hround
        cases hstep
        obtain ⟨items, after, rfl, hitems, hafter⟩ := h
        exact ⟨c :: items, after, rfl, .escape hround hitems, hafter⟩

/-- A run that leaves all that is entered goes over a text that does so. Step by step from its end,
where the text is empty. -/
theorem leaves_of_passes {text : Text} (h : Passes rest entered offset text []) :
    Leaves rest entered text := by
  induction text generalizing entered offset with
  | nil =>
    cases h
    exact .nil
  | cons c more ih =>
    cases h with
    | cons hstep hmore => exact leaves_of_advance hstep (ih hmore)

/-- **The machine goes over just the balanced texts** from nothing entered to nothing entered,
judged in front of what follows. -/
theorem passes_iff {text : Text} : Passes rest [] offset text [] ↔ Balanced text rest :=
  ⟨leaves_of_passes, fun h => h.passes offset⟩

/-- **A balanced text is gone over wherever it stands**, unless a quote follows it. A quote could be
the third one behind an empty literal. -/
theorem passes_of_isBalanced {text : Text} (h : text.IsBalanced)
    (hrest : rest.head? ≠ some (CodePoint.scalar '"')) (offset : Nat) :
    Passes rest [] offset text [] :=
  (passes_iff.1 (h.append_text hrest)).passes offset

/-- **A balanced text between brackets is a group**, whatever follows it, since the closing bracket
is no quote. -/
theorem isGroup_of_isBalanced {inner : Text} (kind : Bracket) (h : inner.IsBalanced) (rest : Text)
    (offset : Nat) : IsGroup rest [] offset kind.opener inner kind.closer := by
  refine Opening.isGroup_of_passes (passes_of_isBalanced h ?_ _)
  rw [List.head?_cons]
  cases kind <;> decide

/-! ## Units

The end of a unit, said by the grammar. Both equivalences determine the unit that a text starts
with, and where it ends. -/

/-- What a unit takes is gone over. -/
theorem exists_passes_of_unitEndFrom {text : Text} {last : Nat}
    (h : Opening.unitEndFrom entered offset text = .ok last) :
    ∃ taken after, text = taken ++ after ∧ offset + taken.length = last + 1 ∧
      Passes after entered offset taken [] := by
  induction text generalizing entered offset with
  | nil => cases h
  | cons c more ih =>
    rw [Opening.unitEndFrom] at h
    obtain ⟨next, hstep, hnext⟩ := Reading.bind_eq_ok.1 h
    split at hnext
    · rename_i hempty
      cases hnext
      rw [List.isEmpty_iff.1 hempty] at hstep
      exact ⟨[c], more, rfl, rfl, .cons hstep .nil⟩
    · obtain ⟨taken, after, rfl, hlength, hpasses⟩ := ih hnext
      refine ⟨c :: taken, after, rfl, ?_, .cons hstep hpasses⟩
      rw [← hlength, List.length_cons]
      omega

/-- **A unit that starts with a bracket** is this bracket, a balanced text, and the closing bracket,
which is the last code point of the unit. -/
theorem unitEnd_opener_iff {kind : Bracket} {text : Text} {last : Nat} :
    Text.unitEnd (CodePoint.scalar kind.opener :: text) = .ok last ↔
      ∃ inner after, text = inner ++ CodePoint.scalar kind.closer :: after ∧
        Balanced inner (CodePoint.scalar kind.closer :: after) ∧ last = inner.length + 1 := by
  constructor
  · intro h
    have hopened : Opening.unitEndFrom ([] ++ [.bracket kind 0]) 1 text = .ok last := by
      cases kind <;> exact h
    obtain ⟨inner, after, htext, hpasses, ⟨_, hlast⟩ | ⟨hne, _⟩⟩ := Opening.exists_closer hopened
    · exact ⟨inner, after, htext, passes_iff.1 hpasses, hlast.trans (Nat.add_comm 1 _)⟩
    · exact absurd rfl hne
  · rintro ⟨inner, after, rfl, hinner, rfl⟩
    rw [Text.unitEnd, (Opening.isGroup_of_passes (hinner.passes 1)).unitEndFrom]
    exact congrArg Except.ok (by omega)

/-- Of all units, only a string literal starts with a quote. So a balanced text that does starts
with one. -/
theorem Balanced.exists_literal {text rest : Text}
    (h : Balanced (CodePoint.scalar '"' :: text) rest) :
    ∃ literal after, CodePoint.scalar '"' :: text = literal ++ after ∧
      StringLiteral literal (after ++ rest) := by
  generalize hwhole : CodePoint.scalar '"' :: text = whole at h
  cases h with
  | nil => cases hwhole
  | point hc _ =>
    cases hwhole
    exact absurd rfl hc.1
  | literal hliteral _ => exact ⟨_, _, rfl, hliteral⟩
  | @group kind _ _ _ _ _ =>
    have hopener := List.head_eq_of_cons_eq hwhole
    cases kind <;> cases hopener

/-- A string literal is one unit. -/
theorem StringLiteral.unitEnd {literal after : Text} {last : Nat} (h : StringLiteral literal after)
    (hlength : literal.length = last + 1) : Text.unitEnd (literal ++ after) = .ok last := by
  obtain ⟨items, rfl, hgroup⟩ := h.isGroup 0
  rw [Text.unitEnd, List.cons_append, List.append_assoc, List.singleton_append, hgroup.unitEndFrom]
  rw [List.length_cons, List.length_append, List.length_singleton] at hlength
  exact congrArg Except.ok (by omega)

/-- **A unit that starts with a quote** is a string literal, and its last code point is the closing
quote. -/
theorem unitEnd_quote_iff {text : Text} {last : Nat} :
    Text.unitEnd (CodePoint.scalar '"' :: text) = .ok last ↔
      ∃ literal after, CodePoint.scalar '"' :: text = literal ++ after ∧
        StringLiteral literal after ∧ literal.length = last + 1 := by
  constructor
  · intro h
    obtain ⟨taken, after, htext, htaken, hpasses⟩ := exists_passes_of_unitEndFrom h
    obtain ⟨taken, rfl⟩ : ∃ more, taken = CodePoint.scalar '"' :: more := by
      cases taken with
      | nil => cases htaken
      | cons c more => exact ⟨more, by rw [List.head_eq_of_cons_eq htext]⟩
    -- The first unit of what was taken is a literal, and so it ends where the unit does.
    obtain ⟨literal, final, hsplit, hliteral⟩ := (passes_iff.1 hpasses).exists_literal
    have hwhole : CodePoint.scalar '"' :: text = literal ++ (final ++ after) := by
      rw [htext, hsplit, List.append_assoc]
    refine ⟨literal, final ++ after, hwhole, hliteral, ?_⟩
    obtain ⟨items, rfl, _⟩ := hliteral.isGroup 0
    have hend : Text.unitEnd (CodePoint.scalar '"' :: text) = .ok (items.length + 1) := by
      rw [hwhole]
      exact hliteral.unitEnd (by simp)
    rw [h] at hend
    cases hend
    simp
  · rintro ⟨literal, after, htext, hliteral, hlength⟩
    rw [htext]
    exact hliteral.unitEnd hlength

end Grammar

end MemberSynthesis
