import Mathlib.Logic.Relation
import MemberSynthesis.Proofs.Source.Listing
import MemberSynthesis.Proofs.Source.Searches

/-!
# Splitting in place

The inside of a list can be split without cutting it out. A cursor goes over it in the whole text,
string literals are skipped, and of all the brackets that are open only the **number** is kept:
whether they match is not looked at again, because the closing bracket of the list was found before.
Nothing holds the cursor back from jumping over the end of the list, either, if the two searches
came to different ends of one string literal.

**They do not**, and the invariant is `Splitting.Follows`: the number is that of the brackets which
the scanner has entered, the scanner goes over the text from the cursor to the end of the list and
leaves all of them, and what stands before the cursor is cut into undivided texts and the start of
the next one. So splitting in place is what splitting the inside is, and it loses nothing
(`InPlace.split_of_closer`).

## Where the list starts

The offset that is given to the search must be that of an opening bracket. From any other the search
goes on to the first bracket behind, and comes to the end of that one
(`InPlace.exists_split_of_closer`); but what stands from the given offset up to there is not the
inside of anything. `InPlace.split_of_closer_name` is the smallest case: at the name in front of a
bracket, the number of open brackets is 1 at the end, and an unbalanced text is split off.

## What is not claimed

That the number is never negative is a consequence here and not a check of the loop, which would go
on with a negative number. Nor does the loop notice an unmatched bracket, or a string that ends
behind the list. It ends whatever it is sent to (`InPlace.exists_split_endsBy`), and what it splits
off then is only known to stand between the two offsets.
-/

set_option autoImplicit false

namespace MemberSynthesis

/-! ## Stretches of a text

A stretch is cut out of a text by two offsets. The laws are those of cutting and putting together,
with both offsets in the text as a whole, so that no length has to be taken off and added again. -/

/-- A stretch of a text, from one offset up to another. -/
structure Span where
  start : Nat
  stop : Nat
  deriving DecidableEq, Repr

namespace Span

variable {text : Text} {i j k : Nat} {c : CodePoint}

/-- What stands there. Behind the end of the text nothing does, and between two offsets in the wrong
order neither. -/
def slice (text : Text) (span : Span) : Text := (text.take span.stop).drop span.start

/-- The item of a list whose inside starts at `first`: the offset of an item is counted from
there. -/
def item (text : Text) (first : Nat) (span : Span) : Item := ⟨span.start - first, span.slice text⟩

theorem slice_self (text : Text) (i : Nat) : slice text ⟨i, i⟩ = [] :=
  List.drop_eq_nil_of_le (List.length_take_le i text)

theorem length_slice (h : j ≤ text.length) : (slice text ⟨i, j⟩).length = j - i :=
  Text.length_drop_take h

theorem slice_append_drop (text : Text) (h : i ≤ j) :
    slice text ⟨i, j⟩ ++ text.drop j = text.drop i := by
  obtain ⟨more, rfl⟩ := Nat.exists_eq_add_of_le h
  rw [slice, List.drop_take, Nat.add_sub_cancel_left, ← List.drop_drop, List.take_append_drop]

theorem slice_append (text : Text) (hij : i ≤ j) (hjk : j ≤ k) :
    slice text ⟨i, j⟩ ++ slice text ⟨j, k⟩ = slice text ⟨i, k⟩ := by
  have hwhole := slice_append_drop (text.take k) hij
  rwa [slice, List.take_take, Nat.min_eq_left hjk] at hwhole

theorem slice_eq_cons (hc : text[i]? = some c) (h : i < j) :
    slice text ⟨i, j⟩ = c :: slice text ⟨i + 1, j⟩ := by
  have htaken : (text.take j)[i]? = some c := by rwa [List.getElem?_take_of_lt h]
  exact Text.drop_eq_cons_of_getElem? htaken

theorem slice_succ (hc : text[j]? = some c) (h : i ≤ j) :
    slice text ⟨i, j + 1⟩ = slice text ⟨i, j⟩ ++ [c] := by
  rw [← slice_append text h (Nat.le_succ j), slice_eq_cons hc (Nat.lt_succ_self j), slice_self]

end Span

namespace InPlace

open Opening (IsBrackets Passes Within advance)

/-! ## The loop

The loop as it is written, with the state it keeps. A turn goes behind one code point, or behind a
whole string literal. -/

/-- What is kept while a list is split: the number of open brackets, the stretches that were split
off, and where the next one starts. The number may be negative, for all the loop knows. -/
structure Splitting where
  depth : Int
  spans : List Span
  start : Nat
  cursor : Nat

namespace Splitting

/-- Before the first code point: nothing is open, and nothing was split off. -/
def init (first : Nat) : Splitting := ⟨0, [], first, first⟩

/-- Behind a code point that is no quote. A bracket changes the number, whatever its kind, and a
comma ends a stretch when the number is 0. -/
def behind (s : Splitting) (c : CodePoint) : Splitting :=
  if (Bracket.ofOpener? c).isSome then { s with depth := s.depth + 1, cursor := s.cursor + 1 }
  else if (Bracket.ofCloser? c).isSome then { s with depth := s.depth - 1, cursor := s.cursor + 1 }
  else if c = ',' ∧ s.depth = 0 then
    { s with
      spans := s.spans ++ [⟨s.start, s.cursor⟩], start := s.cursor + 1, cursor := s.cursor + 1 }
  else { s with cursor := s.cursor + 1 }

/-- One turn of the loop. A string literal is skipped as a whole. -/
def turn (text : Text) (s : Splitting) (steps : Nat) : Run Splitting :=
  match text[s.cursor]? with
  | none => throw ⟨.pastEnd, s.cursor⟩
  | some c =>
    if c = '"' then do
      let next ← literalEnd text s.cursor steps
      return { s with cursor := next }
    else return s.behind c

/-- Turn after turn, until the cursor is at `stop`, or behind it. Each turn takes a step. -/
def loop (text : Text) (stop : Nat) : Splitting → Nat → Run Splitting
  | _, 0 => Run.exhausted
  | s, steps + 1 =>
    if s.cursor < stop then do
      let next ← s.turn text steps
      loop text stop next steps
    else return s

/-- The stretches, with the last one unless it is blank: a comma may be written behind the last
item. -/
def allSpans (text : Text) (stop : Nat) (s : Splitting) : List Span :=
  if (Span.slice text ⟨s.start, stop⟩).all CodePoint.isBlank then s.spans
  else s.spans ++ [⟨s.start, stop⟩]

/-- The loop takes a turn, which it does before `stop` only. -/
def Turns (text : Text) (stop : Nat) (s next : Splitting) : Prop :=
  s.cursor < stop ∧ Run.EndsWith (s.turn text) (.ok next)

end Splitting

/-- The stretches from `start` up to `stop` between the commas outside brackets and strings. -/
def split (text : Text) (start stop steps : Nat) : Run (List Span) := do
  let last ← (Splitting.init start).loop text stop steps
  return last.allSpans text stop

namespace Splitting

variable {text : Text} {first stop steps : Nat} {s next : Splitting} {c : CodePoint}

/-! ## The loop ends

Nothing is assumed here, neither about the text nor about where the loop starts. A turn takes the
cursor further, which is why the loop ends; and what is split off stands between the two offsets
that were given. -/

/-- Behind a code point the cursor is one further, and a stretch may have been split off. -/
theorem behind_cases (s : Splitting) (c : CodePoint) :
    (∃ depth, s.behind c = { s with depth, cursor := s.cursor + 1 }) ∨
      s.behind c = ⟨s.depth, s.spans ++ [⟨s.start, s.cursor⟩], s.cursor + 1, s.cursor + 1⟩ := by
  rw [behind]
  split
  · exact .inl ⟨_, rfl⟩
  · split
    · exact .inl ⟨_, rfl⟩
    · split
      · exact .inr rfl
      · exact .inl ⟨_, rfl⟩

/-- A turn fails, or it goes behind the code point at the cursor or behind a string literal. It
needs as many steps as there is text left, for the search of the literal's end. -/
theorem exists_turn_eq (text : Text) (s : Splitting) :
    ∃ outcome, (∀ steps, text.length - s.cursor ≤ steps → s.turn text steps = Run.ended outcome) ∧
      ∀ next, outcome = .ok next → s.cursor < text.length ∧
        ((∃ c, next = s.behind c) ∨ ∃ e, s.cursor < e ∧ next = { s with cursor := e }) := by
  cases hc : text[s.cursor]? with
  | none =>
    refine ⟨.error ⟨.pastEnd, s.cursor⟩, fun steps _ => ?_, fun next hnext => by cases hnext⟩
    rw [turn, hc]
    rfl
  | some c =>
    have hcursor := (List.getElem?_eq_some_iff.1 hc).1
    by_cases hquote : c = '"'
    · refine ⟨(text.skipString s.cursor).map fun next => { s with cursor := next },
        fun steps hsteps => ?_,
        fun next hnext => ⟨hcursor, .inr ?_⟩⟩
      · rw [turn, hc]
        simp only [if_pos hquote, literalEnd_endsBy text s.cursor steps (by omega)]
        cases text.skipString s.cursor <;> rfl
      · obtain ⟨e, he, rfl⟩ := Outcome.map_eq_ok_iff.1 hnext
        obtain ⟨inside, _, _, hend, _⟩ := Text.exists_of_skipString he
        exact ⟨e, by omega, rfl⟩
    · refine ⟨.ok (s.behind c), fun steps _ => ?_, fun next hnext => ⟨hcursor, .inl ⟨c, ?_⟩⟩⟩
      · rw [turn, hc]
        simp only [if_neg hquote]
        rfl
      · exact (Except.ok.inj hnext).symm

/-- A turn takes the cursor further. This is the measure of the loop. -/
theorem cursor_lt (h : (∃ c, next = s.behind c) ∨ ∃ e, s.cursor < e ∧
    next = { s with cursor := e }) :
    s.cursor < next.cursor := by
  rcases h with ⟨c, rfl⟩ | ⟨e, he, rfl⟩
  · rcases s.behind_cases c with ⟨_, hbehind⟩ | hbehind
    all_goals
      rw [hbehind]
      exact Nat.lt_succ_self _
  · exact he

/-- **The loop ends**, whatever the text is and wherever it starts. It stops when the cursor has
come to `stop`, or in a turn that fails; and all turns before were taken, so that what a turn keeps
can be carried to the end. -/
theorem exists_loop_endsBy (text : Text) (stop : Nat) (s : Splitting) :
    ∃ outcome, Run.EndsBy (text.length - s.cursor) (s.loop text stop) outcome ∧
      ∃ last, Relation.ReflTransGen (Turns text stop) s last ∧
        (stop ≤ last.cursor ∧ outcome = .ok last ∨
          last.cursor < stop ∧ ∃ fault, outcome = .error fault ∧
            Run.EndsWith (last.turn text) (.error fault)) := by
  -- By induction on the length of the text behind the cursor.
  induction hlength : text.length - s.cursor using Nat.strong_induction_on generalizing s with
  | _ length ih =>
    subst hlength
    by_cases hlt : s.cursor < stop
    · obtain ⟨outcome, hturn, hfurther⟩ := exists_turn_eq text s
      have hloop : ∀ fewer, text.length - s.cursor < fewer + 1 → s.loop text stop (fewer + 1) =
          Run.ended outcome >>= fun next => next.loop text stop fewer := by
        intro fewer hfewer
        rw [loop, if_pos hlt, hturn fewer (Nat.le_of_lt_succ hfewer)]
      have hends : Run.EndsWith (s.turn text) outcome :=
        ⟨_, fun steps hsteps => hturn steps (Nat.le_of_lt hsteps)⟩
      cases outcome with
      | error fault =>
        refine ⟨.error fault, fun steps hsteps => ?_, s, .refl, .inr ⟨hlt, fault, rfl, hends⟩⟩
        obtain ⟨fewer, rfl⟩ : ∃ fewer, steps = fewer + 1 := ⟨steps - 1, by omega⟩
        rw [hloop fewer hsteps]
        rfl
      | ok next =>
        obtain ⟨hcursor, hnext⟩ := hfurther next rfl
        have hless := cursor_lt hnext
        obtain ⟨outcome, hrest, last, hreaches, hlast⟩ :=
          ih (text.length - next.cursor) (by omega) next rfl
        refine ⟨outcome, fun steps hsteps => ?_, last, .head ⟨hlt, hends⟩ hreaches, hlast⟩
        obtain ⟨fewer, rfl⟩ : ∃ fewer, steps = fewer + 1 := ⟨steps - 1, by omega⟩
        rw [hloop fewer hsteps]
        exact hrest fewer (by omega)
    · refine ⟨.ok s, fun steps hsteps => ?_, s, .refl, .inl ⟨by omega, rfl⟩⟩
      obtain ⟨fewer, rfl⟩ : ∃ fewer, steps = fewer + 1 := ⟨steps - 1, by omega⟩
      rw [loop, if_neg hlt]
      rfl

/-- All that is split off lies between `first` and `stop`, and the next stretch starts behind
`first` and not behind the cursor. -/
structure StaysIn (first stop : Nat) (s : Splitting) : Prop where
  first_le : first ≤ s.start
  start_le : s.start ≤ s.cursor
  within : ∀ span ∈ s.spans, first ≤ span.start ∧ span.start ≤ span.stop ∧ span.stop ≤ stop

/-- One turn keeps it: a stretch is split off before the cursor, and the cursor is before `stop`. -/
theorem StaysIn.turns (h : StaysIn first stop s) (hturns : Turns text stop s next) :
    StaysIn first stop next := by
  obtain ⟨hlt, hturn⟩ := hturns
  obtain ⟨outcome, hends, hcases⟩ := exists_turn_eq text s
  obtain rfl := hturn.unique ⟨_, fun steps hsteps => hends steps (Nat.le_of_lt hsteps)⟩
  rcases (hcases next rfl).2 with ⟨c, rfl⟩ | ⟨e, he, rfl⟩
  · rcases s.behind_cases c with ⟨_, hbehind⟩ | hbehind
    · rw [hbehind]
      exact ⟨h.first_le, Nat.le_succ_of_le h.start_le, h.within⟩
    · rw [hbehind]
      have hspan : first ≤ s.start ∧ s.start ≤ s.cursor ∧ s.cursor ≤ stop :=
        ⟨h.first_le, h.start_le, Nat.le_of_lt hlt⟩
      exact ⟨h.first_le.trans (Nat.le_succ_of_le h.start_le), Nat.le_refl _,
        List.forall_mem_append.2 ⟨h.within, List.forall_mem_singleton.2 hspan⟩⟩
  · exact ⟨h.first_le, h.start_le.trans (Nat.le_of_lt he), h.within⟩

theorem StaysIn.of_reflTransGen (h : StaysIn first stop s)
    (hreaches : Relation.ReflTransGen (Turns text stop) s next) : StaysIn first stop next := by
  induction hreaches with
  | refl => exact h
  | tail _ hturns ih => exact ih.turns hturns

/-- At the end the last stretch is split off as well, if it is not blank. -/
theorem StaysIn.allSpans (h : StaysIn first stop s) (text : Text) :
    ∀ span ∈ s.allSpans text stop, first ≤ span.start ∧ span.start ≤ span.stop ∧
      span.stop ≤ stop := by
  rw [Splitting.allSpans]
  split
  · exact h.within
  · rename_i hfilled
    -- A stretch that is no blank one does not end before it starts.
    have hle : s.start ≤ stop := by
      by_contra hlt
      apply hfilled
      rw [Span.slice, List.drop_eq_nil_of_le]
      · rfl
      · exact (List.length_take_le _ _).trans (Nat.le_of_not_le hlt)
    have hspan : first ≤ s.start ∧ s.start ≤ stop ∧ stop ≤ stop :=
      ⟨h.first_le, hle, Nat.le_refl stop⟩
    exact List.forall_mem_append.2 ⟨h.within, List.forall_mem_singleton.2 hspan⟩

end Splitting

/-- **Splitting ends**, whatever is split, and nothing is split off outside it. -/
theorem exists_split_endsBy (text : Text) (start stop : Nat) :
    ∃ outcome, Run.EndsBy (text.length - start) (split text start stop) outcome ∧
      ∀ spans, outcome = .ok spans → ∀ span ∈ spans,
        start ≤ span.start ∧ span.start ≤ span.stop ∧ span.stop ≤ stop := by
  obtain ⟨outcome, hloop, last, hreaches, hlast⟩ :=
    Splitting.exists_loop_endsBy text stop (Splitting.init start)
  refine ⟨_, hloop.bind fun last _ => Run.endsBy_ended _ (.ok (last.allSpans text stop)), ?_⟩
  intro spans hspans
  have hinit : Splitting.StaysIn start stop (Splitting.init start) :=
    ⟨Nat.le_refl start, Nat.le_refl start, fun _ hspan => absurd hspan List.not_mem_nil⟩
  have hstays := (hinit.of_reflTransGen hreaches).allSpans text
  rcases hlast with ⟨_, rfl⟩ | ⟨_, _, rfl, _⟩
  · cases hspans
    exact hstays
  · cases hspans

end InPlace

/-! ## Pieces that go on

A turn of the loop is compared with the scanner, which reads the pieces of a list code point by code
point. What is said of a stretch is that no piece ends in it (`Item.Continues`), whatever is read
behind it; and this is what two stretches in a row share with each of them. -/

namespace Opening

variable {rest text : Text} {entered last last' : List Opening} {offset : Nat}

/-- The scanner is a machine: what is entered behind a text depends on what was entered before, and
on nothing else. -/
theorem Passes.unique (h : Passes rest entered offset text last)
    (hother : Passes rest entered offset text last') : last = last' := by
  induction h with
  | nil =>
    cases hother
    rfl
  | cons hstep _ ih =>
    cases hother with
    | cons hstep' hmore =>
      rw [hstep] at hstep'
      cases hstep'
      exact ih hmore

/-- Where a quote stands outside string literals, a literal follows, and the scanner goes on behind
it with what was entered before. The literal ends before `rest`, since the scanner has left it by
then. -/
theorem Passes.exists_items (houtside : IsOutside entered)
    (h : Passes rest entered offset (CodePoint.scalar '"' :: text) []) :
    ¬ (['"', '"', '"'] : Text) <+: CodePoint.scalar '"' :: (text ++ rest) ∧
      advance entered offset '"' (text ++ rest) = .ok (string offset :: entered) ∧
      ∃ items after, text = items ++ CodePoint.scalar '"' :: after ∧
        Grammar.StringItems items (CodePoint.scalar '"' :: (after ++ rest)) ∧
        Within (after ++ rest) (string offset :: entered) (offset + 1)
          (items ++ [CodePoint.scalar '"']) entered ∧
        Passes rest entered (offset + 1 + (items ++ [CodePoint.scalar '"']).length) after [] := by
  cases h with
  | @cons _ next _ _ _ _ hstep hmore =>
    have hsame := hstep
    rw [advance_of_isOutside houtside, advanceOutside, if_pos rfl] at hsame
    split at hsame
    · cases hsame
    · rename_i hopen
      cases hsame
      refine ⟨fun hquotes => hopen ?_, hstep, ?_⟩
      · rw [List.isPrefixOf_iff_prefix]
        exact (List.cons_prefix_cons.1 hquotes).2
      · obtain ⟨items, after, rfl, hitems, _⟩ := Grammar.leaves_of_passes hmore
        have hwithin := (hitems.within offset entered (offset + 1)).append
          (.cons (List.cons_ne_nil _ _) rfl .nil)
        rw [List.append_cons] at hmore
        obtain ⟨mid, hliteral, hafter⟩ := hmore.of_append
        rw [hliteral.unique hwithin.passes] at hafter
        exact ⟨items, after, rfl, hitems, hwithin, hafter⟩

/-- A stretch that is gone over in front of a long text is gone over in front of a shorter one. -/
theorem Within.of_isPrefix {shorter : Text} (h : Within rest entered offset text last)
    (hshorter : shorter <+: rest) : Within shorter entered offset text last := by
  induction h with
  | nil => exact .nil
  | cons hne hstep _ ih => exact .cons hne (advance_of_isPrefix hstep hshorter) ih

end Opening

namespace Item

theorem preceding_concat (texts : List Text) (text : Text) :
    preceding (texts ++ [text]) = preceding texts ++ (text ++ ",") := by
  simp [preceding]

open Opening (Within advance)

variable {text : Text} {entered next last : List Opening} {i j k : Nat} {c : CodePoint}

/-- No piece ends between the two offsets, at which this is entered: what is read from the second
one on is put behind what stands there. It is asked for every shorter text that the pieces are read
from, so that a list may end anywhere behind the second offset. -/
def Continues (text : Text) (i : Nat) (entered : List Opening) (j : Nat) (next : List Opening) :
    Prop :=
  ∀ ⦃rest piece : Text⦄ ⦃items : List Item⦄, rest <+: text.drop j →
    piecesFrom next j rest = .ok (piece, items) →
    piecesFrom entered i (Span.slice text ⟨i, j⟩ ++ rest) =
      .ok (Span.slice text ⟨i, j⟩ ++ piece, items)

theorem continues_self (text : Text) (i : Nat) (entered : List Opening) :
    Continues text i entered i entered := by
  intro rest piece items _ hpieces
  rwa [Span.slice_self, List.nil_append, List.nil_append]

/-- If no piece ends up to an offset and none from there on, then none ends at all. -/
theorem Continues.trans (h : Continues text i entered j next) (hmore : Continues text j next k last)
    (hij : i ≤ j) (hjk : j ≤ k) : Continues text i entered k last := by
  intro rest piece items hrest hpieces
  have hprefix : Span.slice text ⟨j, k⟩ ++ rest <+: text.drop j := by
    rw [← Span.slice_append_drop text hjk]
    exact (List.prefix_append_right_inj _).2 hrest
  have hwhole := h hprefix (hmore hrest hpieces)
  rwa [← List.append_assoc, ← List.append_assoc, Span.slice_append text hij hjk] at hwhole

/-- A code point does not end a piece unless it is a comma where nothing is entered. The step of the
scanner is the same in front of a shorter text. -/
theorem continues_of_advance (hc : text[i]? = some c) (hcomma : ¬ (entered.isEmpty ∧ c = ','))
    (hstep : advance entered i c (text.drop (i + 1)) = .ok next) :
    Continues text i entered (i + 1) next := by
  intro rest piece items hrest hpieces
  have hshorter : advance entered i c rest = .ok next :=
    @Opening.advance_of_isPrefix _ _ _ _ _ [] _ hstep hrest
  rw [Span.slice_eq_cons hc (Nat.lt_succ_self i), Span.slice_self, List.cons_append,
    List.nil_append, piecesFrom, if_neg hcomma, hshorter]
  show (piecesFrom next (i + 1) rest >>= _) = _
  rw [hpieces]
  rfl

/-- In a stretch during which something is entered at every code point, no piece ends. -/
theorem continues_of_within (hij : i ≤ j) (hj : j ≤ text.length)
    (h : Within (text.drop j) entered i (Span.slice text ⟨i, j⟩) next) :
    Continues text i entered j next := by
  intro rest piece items hrest hpieces
  refine Opening.piecesFrom_of_within (h.of_isPrefix hrest) ?_
  rwa [Span.length_slice hj, Nat.add_sub_cancel' hij]

/-- What goes on from where nothing is entered up to where nothing is entered is undivided:
balanced, and with no comma outside. -/
theorem Continues.isUndivided (h : Continues text i [] j []) :
    (Span.slice text ⟨i, j⟩).IsUndivided := by
  have hend : piecesFrom [] j [] = .ok ([], []) := rfl
  have hpieces := h List.nil_prefix hend
  rw [List.append_nil] at hpieces
  obtain ⟨hpasses, hcomma⟩ := Opening.passes_of_piecesFrom hpieces
  refine ⟨Text.isBalanced_of_passes hpasses, fun before after htext hbefore => ?_⟩
  exact hcomma before after htext (Grammar.passes_of_isBalanced hbefore (by simp) i)

end Item

namespace Text

/-- A string literal in its place is skipped, up to its closing quote and no further. -/
theorem skipString_of_items {text items after : Text} {start : Nat}
    (hopen : ¬ (['"', '"', '"'] : Text) <+: text.drop start)
    (hdrop : text.drop (start + 1) = items ++ CodePoint.scalar '"' :: after)
    (hitems : Grammar.StringItems items (CodePoint.scalar '"' :: after)) :
    text.skipString start = .ok (start + 1 + items.length + 1) := by
  have hend := Opening.unitEndFrom_of_within (hitems.within start [] (start + 1))
    (List.cons_ne_nil _ _)
  rw [skipString, if_neg (by rwa [List.isPrefixOf_iff_prefix]), hdrop, hend]
  rfl

end Text

namespace InPlace

open Opening (IsBrackets Passes Within advance)

/-! ## What is split off

The stretches so far, and the one step at which the loop could go wrong: at a string literal. -/

/-- Between `first` and `start` the stretches lie one behind the other. An undivided text stands in
each, and it is an item at its place in a list whose inside starts at `first`. -/
structure AreSplitOff (text : Text) (first : Nat) (spans : List Span) (start : Nat) : Prop where
  within : ∀ span ∈ spans, first ≤ span.start ∧ span.start ≤ span.stop ∧ span.stop < start
  ordered : spans.Pairwise fun span later => span.stop < later.start
  undivided : ∀ span ∈ spans, (span.slice text).IsUndivided
  items : Item.placed 0 (spans.map (Span.slice text)) = spans.map (Span.item text first)

theorem areSplitOff_nil (text : Text) (first start : Nat) : AreSplitOff text first [] start :=
  ⟨fun _ hspan => absurd hspan List.not_mem_nil, .nil,
    fun _ hspan => absurd hspan List.not_mem_nil, rfl⟩

variable {text : Text} {first start stop : Nat} {spans : List Span}

/-- What is split off before an offset is so before a later one. -/
theorem AreSplitOff.mono {later : Nat} (h : AreSplitOff text first spans start)
    (hlater : start ≤ later) : AreSplitOff text first spans later :=
  ⟨fun span hspan =>
    have ⟨hfirst, hle, hlt⟩ := h.within span hspan
    ⟨hfirst, hle, Nat.lt_of_lt_of_le hlt hlater⟩, h.ordered, h.undivided, h.items⟩

/-- One more stretch is split off, up to a comma at `stop`. Its offset in the list is what precedes
it, the commas counted. -/
theorem AreSplitOff.concat (h : AreSplitOff text first spans start)
    (hpreceding : Item.preceding (spans.map (Span.slice text)) = Span.slice text ⟨first, start⟩)
    (hfirst : first ≤ start) (hle : start ≤ stop) (hstop : stop ≤ text.length)
    (hundivided : (Span.slice text ⟨start, stop⟩).IsUndivided) :
    AreSplitOff text first (spans ++ [⟨start, stop⟩]) (stop + 1) where
  within := by
    have hspans := (h.mono (Nat.le_succ_of_le hle)).within
    refine List.forall_mem_append.2 ⟨hspans, List.forall_mem_singleton.2 ?_⟩
    exact ⟨hfirst, hle, Nat.lt_succ_self stop⟩
  ordered := by
    refine List.pairwise_append.2 ⟨h.ordered, List.pairwise_singleton _ _, fun span hspan => ?_⟩
    exact List.forall_mem_singleton.2 (h.within span hspan).2.2
  undivided := List.forall_mem_append.2 ⟨h.undivided, List.forall_mem_singleton.2 hundivided⟩
  items := by
    have hlength : (Item.preceding (spans.map (Span.slice text))).length = start - first := by
      rw [hpreceding, Span.length_slice (hle.trans hstop)]
    rw [List.map_append, Item.placed_append, h.items, hlength, Nat.zero_add, List.map_append]
    rfl

/-- **The cursor does not jump over the end**: the literal that is skipped is the one that the
scanner goes over, and what is behind it is gone over as before. This is where it matters that the
scanner has left everything at `stop`: it has left the literal, too, and where it did is where the
search for its end comes to. -/
theorem exists_skipString {entered : List Opening} {i : Nat} (hstop : stop ≤ text.length)
    (hlt : i < stop) (hquote : text[i]? = some (CodePoint.scalar '"'))
    (houtside : Opening.IsOutside entered)
    (hpasses : Passes (text.drop stop) entered i (Span.slice text ⟨i, stop⟩) []) :
    ∃ e, text.skipString i = .ok e ∧ i < e ∧ e ≤ stop ∧ Item.Continues text i entered e entered ∧
      Passes (text.drop stop) entered e (Span.slice text ⟨e, stop⟩) [] := by
  rw [Span.slice_eq_cons hquote hlt] at hpasses
  obtain ⟨hopen, hstep, items, after, hslice, hitems, hwithin, hafter⟩ :=
    hpasses.exists_items houtside
  have hbehind := Span.slice_append_drop text hlt
  rw [hbehind] at hopen hstep
  rw [← Text.drop_eq_cons_of_getElem? hquote] at hopen
  have hdrop :
      text.drop (i + 1) = (items ++ [CodePoint.scalar '"']) ++ (after ++ text.drop stop) := by
    rw [← hbehind, hslice, List.append_cons, List.append_assoc]
  have hskip := Text.skipString_of_items hopen (by rw [hdrop, List.append_assoc]; rfl) hitems
  -- The literal ends in the list, and after it stands what is left of the list.
  obtain ⟨e, he⟩ : ∃ e, e = i + 1 + (items ++ [CodePoint.scalar '"']).length := ⟨_, rfl⟩
  obtain ⟨hpiece, hrest⟩ := Text.drop_eq_append_iff.1 hdrop
  rw [← he] at hpiece hrest hafter
  have hliteral : Span.slice text ⟨i + 1, e⟩ = items ++ [CodePoint.scalar '"'] := hpiece
  have hend : e = i + 1 + items.length + 1 := by rw [he, List.length_append]; rfl
  have hestop : e ≤ stop := by
    have hlength := congrArg List.length hslice
    rw [Span.length_slice hstop, List.length_append, List.length_cons] at hlength
    omega
  have hleft : Span.slice text ⟨e, stop⟩ = after :=
    List.append_cancel_right ((Span.slice_append_drop text hestop).trans hrest)
  rw [← hrest] at hwithin
  have hquoted : Item.Continues text i entered (i + 1) (.string i :: entered) :=
    Item.continues_of_advance hquote (by simp) hstep
  have hinside : Item.Continues text (i + 1) (.string i :: entered) e entered :=
    Item.continues_of_within (by omega) (hestop.trans hstop) (by rwa [hliteral])
  exact ⟨e, hskip.trans (congrArg Except.ok hend.symm), by omega, hestop,
    hquoted.trans hinside (Nat.le_succ i) (by omega), hleft.symm ▸ hafter⟩

namespace Splitting

variable {s next : Splitting} {c : CodePoint}

/-! ## The invariant

It says what the loop can not know: that the number stands for brackets, and that all of them will
be closed in time. A turn keeps it, the loop does by induction, and at `stop` nothing is entered any
more, so that the number is 0. -/

/-- The number kept is that of the brackets that are entered. What is before the cursor is cut into
undivided texts with a comma behind each, and the start of the next one; and what is behind it is
gone over by the scanner up to `stop`, where nothing is entered any more. -/
structure Follows (text : Text) (first stop : Nat) (s : Splitting) : Prop where
  first_le : first ≤ s.start
  start_le : s.start ≤ s.cursor
  cursor_le : s.cursor ≤ stop
  splitOff : AreSplitOff text first s.spans s.start
  preceding : Item.preceding (s.spans.map (Span.slice text)) = Span.slice text ⟨first, s.start⟩
  commas : ∀ span ∈ s.spans, text[span.stop]? = some (CodePoint.scalar ',')
  scanned : ∃ entered kinds, IsBrackets entered kinds ∧ s.depth = kinds.length ∧
    Item.Continues text s.start [] s.cursor entered ∧
    Passes (text.drop stop) entered s.cursor (Span.slice text ⟨s.cursor, stop⟩) []

/-- It holds before the first code point, if the scanner goes over the whole. -/
theorem follows_init (hle : first ≤ stop)
    (hpasses : Passes (text.drop stop) [] first (Span.slice text ⟨first, stop⟩) []) :
    Follows text first stop (init first) where
  first_le := Nat.le_refl first
  start_le := Nat.le_refl first
  cursor_le := hle
  splitOff := areSplitOff_nil text first first
  preceding := (Span.slice_self text first).symm
  commas := fun _ hspan => absurd hspan List.not_mem_nil
  scanned := ⟨[], [], .nil, rfl, Item.continues_self text first [], hpasses⟩

/-- The number is changed as the brackets are: one more at an opening bracket, one less at a closing
one, which closes the last of them. -/
theorem behind_eq {kinds nextKinds : List Bracket} (hdepth : s.depth = kinds.length)
    (hstep : Bracket.step kinds c = some nextKinds) (hcomma : ¬ (c = ',' ∧ s.depth = 0)) :
    s.behind c = { s with depth := nextKinds.length, cursor := s.cursor + 1 } := by
  rw [Bracket.step] at hstep
  rw [behind]
  cases hopener : Bracket.ofOpener? c with
  | some opened =>
    rw [hopener] at hstep
    cases hstep
    simp [hdepth]
  | none =>
    rw [hopener] at hstep
    cases hcloser : Bracket.ofCloser? c with
    | none =>
      rw [hcloser] at hstep
      cases hstep
      rw [if_neg (by simp), if_neg (by simp), if_neg hcomma, ← hdepth]
    | some closed =>
      rw [hcloser] at hstep
      -- A closing bracket is only stepped over when it closes the innermost one.
      cases kinds with
      | nil => cases hstep
      | cons opened outer =>
        dsimp only at hstep
        split at hstep
        · cases hstep
          simp [hdepth]
        · cases hstep

/-- At a comma outside all brackets, a stretch is split off, and the next one starts behind the
comma. -/
theorem behind_comma (hdepth : s.depth = 0) :
    s.behind ',' = ⟨s.depth, s.spans ++ [⟨s.start, s.cursor⟩], s.cursor + 1, s.cursor + 1⟩ := by
  rw [behind, if_neg (by decide), if_neg (by decide), if_pos ⟨rfl, hdepth⟩]

/-- Behind a code point that is no quote, the invariant is kept. Either a stretch ends there, and
nothing is entered; or the piece goes on, and the scanner says with what. -/
theorem Follows.behind (h : Follows text first stop s) (hstop : stop ≤ text.length)
    (hlt : s.cursor < stop) (hc : text[s.cursor]? = some c) (hquote : c ≠ '"') :
    Follows text first stop (s.behind c) := by
  obtain ⟨entered, kinds, hkinds, hdepth, hpiece, hpasses⟩ := h.scanned
  rw [Span.slice_eq_cons hc hlt] at hpasses
  cases hpasses with
  | @cons _ next _ _ _ _ hstep hmore =>
    rw [Span.slice_append_drop text hlt] at hstep
    obtain ⟨nextKinds, hnext, hnextKinds⟩ := Opening.step_of_advance hkinds hquote hstep
    have hopen : s.depth = 0 ↔ entered = [] := by
      rw [Opening.isEmpty_of_isBrackets hkinds, hdepth, ← List.length_eq_zero_iff]
      exact Int.natCast_eq_zero
    by_cases hcomma : c = ',' ∧ s.depth = 0
    -- At a comma outside all brackets the piece ends, and is one more that is split off.
    · obtain ⟨rfl, hzero⟩ := hcomma
      obtain rfl := hopen.1 hzero
      cases hkinds
      cases hnext
      cases hnextKinds
      have hundivided := hpiece.isUndivided
      rw [behind_comma hzero]
      have hcursor : s.cursor ≤ text.length := (Nat.le_of_lt hlt).trans hstop
      exact {
        first_le := h.first_le.trans (Nat.le_succ_of_le h.start_le)
        start_le := Nat.le_refl _
        cursor_le := hlt
        splitOff := h.splitOff.concat h.preceding h.first_le h.start_le hcursor hundivided
        preceding := by
          rw [List.map_append, List.map_singleton, Item.preceding_concat, h.preceding,
            ← List.append_assoc, Span.slice_append text h.first_le h.start_le]
          exact (Span.slice_succ hc (h.first_le.trans h.start_le)).symm
        commas := List.forall_mem_append.2 ⟨h.commas, List.forall_mem_singleton.2 hc⟩
        scanned := ⟨[], [], .nil, hzero, Item.continues_self text _ [], hmore⟩ }
    · rw [behind_eq hdepth hnext hcomma]
      -- Anything else belongs to the piece that has been started.
      have hsplit : ¬ (entered.isEmpty ∧ c = ',') := by
        rw [List.isEmpty_iff]
        exact fun ⟨hempty, heq⟩ => hcomma ⟨heq, hopen.2 hempty⟩
      exact {
        first_le := h.first_le
        start_le := Nat.le_succ_of_le h.start_le
        cursor_le := hlt
        splitOff := h.splitOff
        preceding := h.preceding
        commas := h.commas
        scanned := ⟨next, nextKinds, hnextKinds, rfl,
          hpiece.trans (Item.continues_of_advance hc hsplit hstep) h.start_le
            (Nat.le_succ _), hmore⟩ }

/-- A string literal is skipped, and no piece ends in it. What is entered behind it is what was
entered before, so the number need not change. -/
theorem Follows.skip (h : Follows text first stop s) (hstop : stop ≤ text.length)
    (hlt : s.cursor < stop) (hquote : text[s.cursor]? = some (CodePoint.scalar '"')) :
    ∃ e, text.skipString s.cursor = .ok e ∧ Follows text first stop { s with cursor := e } := by
  obtain ⟨entered, kinds, hkinds, hdepth, hpiece, hpasses⟩ := h.scanned
  have houtside := Opening.isOutside_append hkinds Opening.isOutside_nil
  rw [List.append_nil] at houtside
  obtain ⟨e, hskip, hless, hestop, hliteral, hleft⟩ :=
    exists_skipString hstop hlt hquote houtside hpasses
  have hcontinues := hpiece.trans hliteral h.start_le (Nat.le_of_lt hless)
  exact ⟨e, hskip, {
    first_le := h.first_le
    start_le := h.start_le.trans (Nat.le_of_lt hless)
    cursor_le := hestop
    splitOff := h.splitOff
    preceding := h.preceding
    commas := h.commas
    scanned := ⟨entered, kinds, hkinds, hdepth, hcontinues, hleft⟩ }⟩

/-- **The invariant is kept, and no turn fails**: there is a code point at the cursor, and a literal
that starts there is closed. -/
theorem Follows.exists_turn (h : Follows text first stop s) (hstop : stop ≤ text.length)
    (hlt : s.cursor < stop) :
    ∃ next, Run.EndsWith (s.turn text) (.ok next) ∧ Follows text first stop next := by
  obtain ⟨c, hc⟩ : ∃ c, text[s.cursor]? = some c :=
    ⟨_, List.getElem?_eq_getElem (Nat.lt_of_lt_of_le hlt hstop)⟩
  by_cases hquote : c = '"'
  · subst hquote
    obtain ⟨e, hskip, hfollows⟩ := h.skip hstop hlt hc
    refine ⟨_, ⟨text.length - (s.cursor + 1), fun steps hsteps => ?_⟩, hfollows⟩
    rw [turn, hc]
    simp only [if_pos, literalEnd_endsBy text s.cursor steps hsteps, hskip]
    rfl
  · refine ⟨_, ⟨0, fun steps _ => ?_⟩, h.behind hstop hlt hc hquote⟩
    rw [turn, hc]
    simp only [if_neg hquote]
    rfl

/-- Whatever the loop comes to keeps the invariant, and so all of its states do, not only the
last. -/
theorem Follows.of_reflTransGen (h : Follows text first stop s) (hstop : stop ≤ text.length)
    (hreaches : Relation.ReflTransGen (Turns text stop) s next) : Follows text first stop next := by
  induction hreaches with
  | refl => exact h
  | tail _ hturns ih =>
    obtain ⟨hlt, hturn⟩ := hturns
    obtain ⟨other, hother, hfollows⟩ := ih.exists_turn hstop hlt
    cases hturn.unique hother
    exact hfollows

/-- **The loop comes to `stop`**, and there the invariant still holds. It has come to no failing
turn, as there is none. -/
theorem Follows.exists_loop (h : Follows text first stop s) (hstop : stop ≤ text.length) :
    ∃ last, Run.EndsWith (s.loop text stop) (.ok last) ∧ last.cursor = stop ∧
      Follows text first stop last := by
  obtain ⟨outcome, hloop, last, hreaches, ⟨hle, rfl⟩ | ⟨hlt, fault, rfl, hfails⟩⟩ :=
    exists_loop_endsBy text stop s
  · have hlast := h.of_reflTransGen hstop hreaches
    exact ⟨last, ⟨_, hloop⟩, Nat.le_antisymm hlast.cursor_le hle, hlast⟩
  · obtain ⟨next, hturn, _⟩ := (h.of_reflTransGen hstop hreaches).exists_turn hstop hlt
    cases hfails.unique hturn

/-- At the end no bracket is open, and the last stretch is undivided as well: nothing is left that
the scanner could leave. -/
theorem Follows.at_stop (h : Follows text first stop s) (hcursor : s.cursor = stop) :
    s.depth = 0 ∧ (Span.slice text ⟨s.start, stop⟩).IsUndivided := by
  obtain ⟨entered, kinds, hkinds, hdepth, hpiece, hpasses⟩ := h.scanned
  rw [hcursor] at hpiece hpasses
  rw [Span.slice_self] at hpasses
  cases hpasses
  cases hkinds
  exact ⟨hdepth, hpiece.isUndivided⟩

theorem Follows.depth_nonneg (h : Follows text first stop s) : 0 ≤ s.depth := by
  obtain ⟨_, kinds, _, hdepth, _⟩ := h.scanned
  rw [hdepth]
  exact Int.natCast_nonneg _

end Splitting

/-! ## Nothing is lost

What was split off, put together again. The last stretch is dropped when it is blank, and it is the
only one that ever is. -/

/-- The stretches that the text from `first` up to `stop` is split into. They lie one behind the
other, and an undivided text stands in each, up to a comma or to the end. With commas between them,
and behind the last one the blank text that was dropped if there was one, they are the whole. They
are the items of the inside of the list. -/
structure IsSplit (text : Text) (first stop : Nat) (spans : List Span) : Prop where
  splitOff : AreSplitOff text first spans (stop + 1)
  ends : ∀ span ∈ spans, span.stop = stop ∨ text[span.stop]? = some (CodePoint.scalar ',')
  joined : ∃ pieces last, Text.joined "," (pieces ++ [last]) = Span.slice text ⟨first, stop⟩ ∧
    spans.map (Span.slice text) = pieces ++ if last.all CodePoint.isBlank then [] else [last]
  items : Item.split (Span.slice text ⟨first, stop⟩) = .ok (spans.map (Span.item text first))

namespace Splitting

variable {s : Splitting}

/-- What is split off, with the last stretch unless it is blank, is the whole list, and what
splitting the inside comes to as well. -/
theorem Follows.isSplit (h : Follows text first stop s) (hstop : stop ≤ text.length)
    (hcursor : s.cursor = stop) : IsSplit text first stop (s.allSpans text stop) := by
  have hle : s.start ≤ stop := hcursor ▸ h.start_le
  have hjoined :
      Text.joined "," (s.spans.map (Span.slice text) ++ [Span.slice text ⟨s.start, stop⟩]) =
        Span.slice text ⟨first, stop⟩ := by
    rw [Item.joined_append (List.cons_ne_nil _ _), Text.joined_singleton, h.preceding,
      Span.slice_append text h.first_le hle]
  -- With the last stretch, blank or not, everything is split off.
  have hall : AreSplitOff text first (s.spans ++ [⟨s.start, stop⟩]) (stop + 1) :=
    h.splitOff.concat h.preceding h.first_le hle hstop (h.at_stop hcursor).2
  have hcommas :
      ∀ span ∈ s.spans, span.stop = stop ∨ text[span.stop]? = some (CodePoint.scalar ',') :=
    fun span hspan => .inr (h.commas span hspan)
  have hsplit := Item.split_listed (List.forall_mem_map.2 hall.undivided)
  rw [hall.items, List.map_append, List.map_singleton, hjoined, List.map_append, List.map_singleton]
    at hsplit
  rw [allSpans]
  split
  -- A blank last stretch is dropped by both, the loop and the cut of the inside.
  · rename_i hblank
    refine ⟨h.splitOff.mono (Nat.le_succ_of_le hle), hcommas, ⟨_, _, hjoined, ?_⟩, ?_⟩
    · rw [if_pos hblank, List.append_nil]
    · rw [hsplit]
      exact congrArg Except.ok (Item.withoutBlankLast_append (List.all_eq_true.1 hblank))
  · rename_i hfilled
    refine ⟨hall, List.forall_mem_append.2 ⟨hcommas, ?_⟩, ⟨_, _, hjoined, ?_⟩, ?_⟩
    · exact List.forall_mem_singleton.2 (.inl rfl)
    · rw [if_neg hfilled, List.map_append, List.map_singleton]
    · have hkept : Item.withoutBlankLast [Span.item text first ⟨s.start, stop⟩] =
          [Span.item text first ⟨s.start, stop⟩] := if_neg hfilled
      rw [hsplit, Item.withoutBlankLast_append_of_ne_nil (List.cons_ne_nil _ _), hkept,
        List.map_append, List.map_singleton]

end Splitting

/-- **Where the scanner goes over what is to be split, nothing is lost.** No search for a bracket is
needed for this: the stretch may be any that is balanced where it stands. -/
theorem split_of_passes (hle : first ≤ stop) (hstop : stop ≤ text.length)
    (hpasses : Passes (text.drop stop) [] first (Span.slice text ⟨first, stop⟩) []) :
    ∃ last, Run.EndsWith ((Splitting.init first).loop text stop) (.ok last) ∧
      Run.EndsWith (split text first stop) (.ok (last.allSpans text stop)) ∧
      (∀ s, Relation.ReflTransGen (Splitting.Turns text stop) (Splitting.init first) s →
        0 ≤ s.depth) ∧
      last.depth = 0 ∧ last.cursor = stop ∧ IsSplit text first stop (last.allSpans text stop) := by
  have hinit := Splitting.follows_init hle hpasses
  obtain ⟨last, ⟨enough, hloop⟩, hcursor, hlast⟩ := hinit.exists_loop hstop
  refine ⟨last, ⟨enough, hloop⟩, ⟨enough, fun steps hsteps => ?_⟩,
    fun s hreaches => (hinit.of_reflTransGen hstop hreaches).depth_nonneg,
    (hlast.at_stop hcursor).1, hcursor, hlast.isSplit hstop hcursor⟩
  rw [split, hloop steps hsteps]
  rfl

/-- From every offset, what is split is the inside of the first brackets that there are: the search
for a closing bracket has come to `j`, which closes a bracket at `k`, and behind this one nothing is
lost. -/
theorem exists_split_of_closer {atEnd : ReadFault} {i j : Nat}
    (h : Run.EndsWith (closer text atEnd i) (.ok j)) :
    ∃ k last, IsFirstGroup text i k j ∧
      Run.EndsWith ((Splitting.init (k + 1)).loop text j) (.ok last) ∧
      Run.EndsWith (split text (k + 1) j) (.ok (last.allSpans text j)) ∧
      (∀ s, Relation.ReflTransGen (Splitting.Turns text j) (Splitting.init (k + 1)) s →
        0 ≤ s.depth) ∧
      last.depth = 0 ∧ last.cursor = j ∧ IsSplit text (k + 1) j (last.allSpans text j) := by
  obtain ⟨outcome, hends, hfirst⟩ := exists_closer_endsBy text atEnd i
  obtain ⟨k, hgroup⟩ := hfirst j (h.unique hends.endsWith).symm
  obtain ⟨kind, hopener⟩ := hgroup.opener
  obtain ⟨hlt, hcloser, hbalanced⟩ := (Text.closerOf_eq_ok_iff hopener).1 hgroup.closer
  have hj : j ≤ text.length := Nat.le_of_lt (List.getElem?_eq_some_iff.1 hcloser).1
  obtain ⟨last, hsplit⟩ := split_of_passes hlt hj (hbalanced.passes (k + 1))
  exact ⟨k, last, hgroup, hsplit⟩

/-- **Splitting loses nothing.** When an opening bracket stands at `i` and the search for the
bracket that closes it has come to `j`, then splitting what stands between them does not fail. The
number of open brackets is never negative on the way, and 0 at the end; the cursor stops at `j`; and
what is split off is the inside of the brackets, cut at the commas that stand in nothing else,
without a blank piece at the end. -/
theorem split_of_closer {kind : Bracket} {atEnd : ReadFault} {i j : Nat}
    (hopener : text[i]? = some (CodePoint.scalar kind.opener))
    (h : Run.EndsWith (closer text atEnd i) (.ok j)) :
    ∃ last, Run.EndsWith ((Splitting.init (i + 1)).loop text j) (.ok last) ∧
      Run.EndsWith (split text (i + 1) j) (.ok (last.allSpans text j)) ∧
      (∀ s, Relation.ReflTransGen (Splitting.Turns text j) (Splitting.init (i + 1)) s →
        0 ≤ s.depth) ∧
      last.depth = 0 ∧ last.cursor = j ∧ IsSplit text (i + 1) j (last.allSpans text j) := by
  obtain ⟨k, last, hgroup, hsplit⟩ := exists_split_of_closer h
  obtain rfl := hgroup.eq_of_opener kind hopener
  exact ⟨last, hsplit⟩

/-- Commas in a string, in its interpolation and in brackets, and a blank piece at the end. -/
theorem split_of_closer_call :
    ∃ text : Text, text = "f[\"a,\\([b, c])\", g(d, e), ]" ∧
      text[1]? = some (CodePoint.scalar Bracket.square.opener) ∧
      Run.EndsWith (closer text ⟨.unclosed .square, 1⟩ 1) (.ok 26) ∧
      ∃ spans, Run.EndsWith (split text 2 26) (.ok spans) ∧
        spans.map (Span.slice text) = ["\"a,\\([b, c])\"", " g(d, e)"] := by
  obtain ⟨text, htext⟩ : ∃ text : Text, text = "f[\"a,\\([b, c])\", g(d, e), ]" := ⟨_, rfl⟩
  have hopener : text[1]? = some (CodePoint.scalar Bracket.square.opener) := by
    rw [htext]
    decide
  have hfound : text.closerOf 1 = .ok 26 := by
    rw [htext]
    decide +kernel
  have hcloser : Run.EndsWith (closer text ⟨.unclosed .square, 1⟩ 1) (.ok 26) :=
    hfound ▸ (closer_endsBy hopener).endsWith
  obtain ⟨last, _, hsplit, _, _, _, hspans⟩ := split_of_closer hopener hcloser
  have hitems : Item.split (Span.slice text ⟨2, 26⟩) =
      .ok [⟨0, "\"a,\\([b, c])\""⟩, ⟨14, " g(d, e)"⟩] := by
    rw [htext]
    decide +kernel
  have hsame := congrArg (List.map Item.text) (Except.ok.inj (hspans.items.symm.trans hitems))
  rw [List.map_map] at hsame
  exact ⟨text, htext, hopener, hcloser, _, hsplit, hsame⟩

/-- Where no bracket stands, the search goes on to the first one behind, and what stands up to its
end is not the inside of brackets: from the name in front of a bracket, splitting ends with one
bracket open, and with an unbalanced text split off. -/
theorem split_of_closer_name :
    ∃ text : Text, text = "a(b)" ∧ (∀ atEnd, Run.EndsWith (closer text atEnd 0) (.ok 3)) ∧
      (∃ last, Run.EndsWith ((Splitting.init 1).loop text 3) (.ok last) ∧ last.depth = 1) ∧
      Run.EndsWith (split text 1 3) (.ok [⟨1, 3⟩]) ∧
      ¬ (Span.slice text ⟨1, 3⟩).IsBalanced := by
  refine ⟨_, rfl, fun atEnd => ⟨4, fun steps hsteps => ?_⟩, ?_, ⟨2, fun steps hsteps => ?_⟩, ?_⟩
  · obtain ⟨fewer, rfl⟩ : ∃ fewer, steps = fewer + 5 := ⟨steps - 5, by omega⟩
    rfl
  · refine ⟨⟨1, [], 1, 3⟩, ⟨2, fun steps hsteps => ?_⟩, rfl⟩
    obtain ⟨fewer, rfl⟩ : ∃ fewer, steps = fewer + 3 := ⟨steps - 3, by omega⟩
    rfl
  · obtain ⟨fewer, rfl⟩ : ∃ fewer, steps = fewer + 3 := ⟨steps - 3, by omega⟩
    rfl
  · intro hbalanced
    obtain ⟨last, hlast⟩ := Text.unitEnd_of_isBalanced hbalanced (by decide)
    cases hlast

end InPlace

end MemberSynthesis
