import MemberSynthesis.Proofs.Source.Nesting
import MemberSynthesis.Proofs.Source.Skipping

/-!
# Two searches that call each other

The scanner keeps all that is entered on one stack and goes over a text once. Without such a stack a
bracket and the end of a string literal are found by two searches in the whole text. The search for
a closing bracket leaves it to the other one to skip the string literals on its way, and that one
leaves the interpolations in a literal to the first. Each resumes **where the other has come to**,
so how a search goes on is only known when the search inside has ended, and nothing in the way the
two are written says that it does.

Hence each search is allowed a number of steps, and a `Run` has no outcome when they are used up.
**With as many steps as there are code points left, and one more, both searches end**, on every text
and from every offset, and they come to what the scanner comes to (`InPlace.literalEnd_endsBy`,
`InPlace.closer_endsBy`). The reason is that of the scanner: its run with something entered below is
its run without, and then the run with what is below (`Opening.unitEndFrom_append`).

## What has to be proved at once

That a search ends and what it comes to can not be proved one after the other. A search resumes
behind what the search inside has found, so it ends because that was found further on; and it was
found further on because it is what the scanner finds there. Nor can the two searches be treated
apart, as each of them calls the other. So `InPlace.Agrees` says all of it, of both searches, at one
offset, and the induction is on how much of the text is left (`InPlace.agrees`). The lemmas before
it are its cases, one for each kind of code point.

From an offset at which no bracket stands, the scanner says nothing about a closing bracket, but the
search does: it goes on to the first one (`InPlace.exists_closer_endsBy`).
-/

set_option autoImplicit false

namespace MemberSynthesis

/-! ## Runs

A run is a function of the number of steps it is allowed. Its outcome is what all runs with enough
steps have in common, so that two runs one after the other need not share their steps. -/

/-- A reading that may have no outcome, because the steps that it was allowed are used up. Having
none is different from failing, which is an outcome. -/
abbrev Run (α : Type) := ExceptT ReadFault Option α

namespace Run

variable {α β : Type}

/-- The run whose steps are used up. -/
def exhausted : Run α := ExceptT.mk none

/-- The run that ends with an outcome, be it a fault. -/
def ended (outcome : Reading α) : Run α := ExceptT.mk (some outcome)

/-- With more steps than `enough`, the run ends with the outcome. -/
def EndsBy (enough : Nat) (run : Nat → Run α) (outcome : Reading α) : Prop :=
  ∀ steps, enough < steps → run steps = ended outcome

/-- With enough steps, and with any more, the run ends with the outcome. -/
def EndsWith (run : Nat → Run α) (outcome : Reading α) : Prop := ∃ enough, EndsBy enough run outcome

variable {enough : Nat} {run : Nat → Run α} {outcome other : Reading α}

theorem EndsBy.endsWith (h : EndsBy enough run outcome) : EndsWith run outcome := ⟨enough, h⟩

theorem EndsBy.mono {more : Nat} (h : EndsBy enough run outcome) (hle : enough ≤ more) :
    EndsBy more run outcome := fun steps hsteps => h steps (Nat.lt_of_le_of_lt hle hsteps)

theorem endsBy_ended (enough : Nat) (outcome : Reading α) :
    EndsBy enough (fun _ => ended outcome) outcome := fun _ _ => rfl

theorem ended_ok_bind (a : α) (next : α → Run β) : ended (.ok a) >>= next = next a := rfl

/-- A run that goes on where another one ends comes to what both outcomes come to, and each of them
is allowed all the steps. -/
theorem EndsBy.bind {next : α → Nat → Run β} {rest : α → Reading β} (h : EndsBy enough run outcome)
    (hnext : ∀ a, outcome = .ok a → EndsBy enough (next a) (rest a)) :
    EndsBy enough (fun steps => run steps >>= fun a => next a steps) (outcome >>= rest) := by
  intro steps hsteps
  dsimp only
  rw [h steps hsteps]
  cases outcome with
  | error fault => rfl
  | ok a => exact hnext a rfl steps hsteps

/-- Runs one after the other end with what their outcomes come to, one after the other. -/
theorem EndsBy.mapM {run : α → Nat → Run β} {outcome : α → Reading β} {xs : List α}
    (h : ∀ x ∈ xs, EndsBy enough (run x) (outcome x)) :
    EndsBy enough (fun steps => xs.mapM fun x => run x steps) (xs.mapM outcome) := by
  induction xs with
  | nil => exact endsBy_ended enough (.ok [])
  | cons x xs ih =>
    simp only [List.mapM_cons]
    refine (h x List.mem_cons_self).bind fun _ _ => ?_
    refine (ih fun other hother => h other (List.mem_cons_of_mem x hother)).bind fun _ _ => ?_
    exact endsBy_ended enough (.ok _)

/-- A run ends with one outcome only. -/
theorem EndsWith.unique (h : EndsWith run outcome) (hother : EndsWith run other) :
    outcome = other := by
  obtain ⟨enough, hends⟩ := h
  obtain ⟨enough', hends'⟩ := hother
  have hsame := (hends (enough + enough' + 1) (by omega)).symm.trans (hends' _ (by omega))
  exact Option.some.inj hsame

end Run

namespace InPlace

/-! ## The searches

Each call of the other search, and of itself, gets one step less. A search for a closing bracket
keeps the kinds of the brackets that are open and forgets where they opened, as no fault needs to
know. -/

/-- The outcome of a search that may have come to the end of the text. What the fault is then
depends on who searches. -/
def orFault (atEnd : ReadFault) : Option Nat → Reading Nat
  | some found => .ok found
  | none => .error atEnd

/-- Refuses three quotes in a row, and searches for the end of the literal behind a single one. -/
def behindQuote (text : Text) (start : Nat) (search : Run Nat) : Run Nat :=
  if (['"', '"', '"'] : Text).isPrefixOf (text.drop start) then throw ⟨.multilineString, start⟩
  else search

mutual

/-- Searches on from `i` for the bracket that closes the outermost of those that are open, of these
kinds and the innermost first. At the end of the text it gives nothing. -/
def closerFrom (text : Text) (entered : List Bracket) (i : Nat) : Nat → Run (Option Nat)
  | 0 => Run.exhausted
  | steps + 1 =>
    match text[i]? with
    | none => return none
    | some c =>
      if c = '"' then do
        let next ← behindQuote text i (literalEndFrom text i (i + 1) steps)
        closerFrom text entered next steps
      else
        match Bracket.ofOpener? c with
        | some opened => closerFrom text (opened :: entered) (i + 1) steps
        | none =>
          match Bracket.ofCloser? c with
          | none => closerFrom text entered (i + 1) steps
          | some closed =>
            match entered with
            | [] => throw ⟨.unbalanced closed, i⟩
            | opened :: outer =>
              if opened ≠ closed then throw ⟨.unbalanced closed, i⟩
              else if outer = [] then return some i
              else closerFrom text outer (i + 1) steps

/-- Searches on from `i` for the end of the string literal that opens at `start`. -/
def literalEndFrom (text : Text) (start i : Nat) : Nat → Run Nat
  | 0 => Run.exhausted
  | steps + 1 =>
    match text[i]? with
    | none => throw ⟨.unterminatedString, start⟩
    | some c =>
      if c = '\\' then
        if text[i + 1]? = some (CodePoint.scalar '(') then do
          let found ← closerFrom text [] (i + 1) steps
          let close ← Run.ended (orFault ⟨.unclosed .round, i + 1⟩ found)
          literalEndFrom text start (close + 1) steps
        -- A backslash at the end of the text leads past it.
        else literalEndFrom text start (i + 2) steps
      else if c = '"' then return i + 1
      else if c = '\n' then throw ⟨.unterminatedString, start⟩
      else literalEndFrom text start (i + 1) steps

end

/-- The offset of the bracket that closes the first one from `i` on, or the fault given for the end
of the text. -/
def closer (text : Text) (atEnd : ReadFault) (i steps : Nat) : Run Nat := do
  let found ← closerFrom text [] i steps
  Run.ended (orFault atEnd found)

/-- The offset right after the string literal that opens at `start`. -/
def literalEnd (text : Text) (start steps : Nat) : Run Nat :=
  behindQuote text start (literalEndFrom text start (start + 1) steps)

end InPlace

/-! ## A scan with something entered below

The scanner has one stack where the searches have calls. When it has left what is entered above, it
goes on with what is below, and that is where a search resumes. -/

namespace Opening

variable {entered next outer : List Opening} {offset i : Nat} {c : CodePoint} {rest text : Text}

/-- No bracket lies right above another: at the end of a text, what is entered above is blamed as it
would be without what lies below. Of two brackets in a row, it is the lower one that is blamed. -/
def IsApart (entered outer : List Opening) : Prop :=
  ∀ kind start kind' start', entered.getLast? = some (bracket kind start) →
    outer.head? ≠ some (bracket kind' start')

/-- At the end of a text, what lies below has no say in what is blamed. -/
theorem unfinished_append (h : IsApart entered outer) (hne : entered ≠ []) :
    unfinished (entered ++ outer) = unfinished entered := by
  induction entered with
  | nil => exact absurd rfl hne
  | cons top below ih =>
    cases top with
    | string | escape => rfl
    | bracket kind start =>
      match below with
      | [] =>
        match outer with
        | [] | string _ :: _ | escape _ :: _ => rfl
        | bracket kind' start' :: _ => exact absurd rfl (h kind start kind' start' rfl)
      | string _ :: _ | escape _ :: _ => rfl
      | bracket _ _ :: _ =>
        exact ih (fun kind start kind' start' hlast => h kind start kind' start'
          (by rwa [List.getLast?_cons_cons])) (List.cons_ne_nil _ _)

/-- A step above leaves the two apart, as it keeps the lowest opening that is above or leaves all of
them. -/
theorem IsApart.advance (h : IsApart entered outer)
    (hstep : advance entered offset c rest = .ok next)
    (hne : entered ≠ []) : IsApart next outer := by
  obtain ⟨top, below, rfl⟩ := List.exists_cons_of_ne_nil hne
  obtain ⟨still, hstill, rfl⟩ := advance_cons_eq_ok hstep
  intro kind start kind' start' hlast
  cases below with
  | cons under below =>
    refine h kind start kind' start' ?_
    rwa [List.getLast?_append_of_ne_nil _ (List.cons_ne_nil _ _)] at hlast
  | nil =>
    -- What was at the bottom is still there, if anything is.
    rw [List.append_nil] at hlast
    rcases advance_singleton hstill with rfl | ⟨bottom, hblame, rfl | ⟨opened, rfl, _⟩⟩
    · cases hlast
    all_goals
      cases hlast
      cases top with
      | bracket => exact h _ _ kind' start' rfl
      | string | escape => cases hblame

/-- **A scan with something entered below** is the scan without it, and then the scan with what is
below. So the end of what is above can be searched for by itself. -/
theorem unitEndFrom_append (hapart : IsApart entered outer) (hne : entered ≠ [])
    (houter : outer ≠ []) :
    unitEndFrom (entered ++ outer) i (text.drop i) = (do
      let last ← unitEndFrom entered i (text.drop i)
      unitEndFrom outer (last + 1) (text.drop (last + 1))) := by
  generalize hrest : text.drop i = rest
  induction rest generalizing entered i with
  | nil =>
    rw [unitEndFrom, unitEndFrom, unfinished_append hapart hne]
    rfl
  | cons c rest ih =>
    have hmore : text.drop (i + 1) = rest := by
      rw [← List.drop_drop, hrest, List.drop_succ_cons, List.drop_zero]
    obtain ⟨top, below, rfl⟩ := List.exists_cons_of_ne_nil hne
    rw [unitEndFrom, unitEndFrom, List.cons_append, advance_cons, advance_cons top below]
    cases hstep : advance [top] i c rest with
    | error fault => rfl
    | ok still =>
      show (if (still ++ (below ++ outer)).isEmpty then _ else
        unitEndFrom (still ++ (below ++ outer)) (i + 1) rest) =
          (if (still ++ below).isEmpty then _ else unitEndFrom (still ++ below) (i + 1) rest) >>= _
      rw [← List.append_assoc]
      cases hnext : still ++ below with
      | nil =>
        rw [List.nil_append, if_neg (by simpa using houter), ← hmore]
        rfl
      | cons first others =>
        have hadvance : advance (top :: below) i c rest = .ok (first :: others) := by
          rw [advance_cons, hstep, ← hnext]
          rfl
        exact ih (hapart.advance hadvance hne) (List.cons_ne_nil _ _) hmore

/-- Where a quote stands outside string literals, the scan goes on behind the literal. -/
theorem unitEndFrom_quote_eq (houtside : IsOutside entered) (hne : entered ≠ [])
    (hquote : text[i]? = some (CodePoint.scalar '"')) :
    unitEndFrom entered i (text.drop i) = (do
      let e ← text.skipString i
      unitEndFrom entered e (text.drop e)) := by
  have hapart : IsApart [string i] entered := fun _ _ _ _ hlast => by cases hlast
  have hmore := @unitEndFrom_append _ _ (i + 1) text hapart (List.cons_ne_nil _ _) hne
  rw [Text.drop_eq_cons_of_getElem? hquote, unitEndFrom, advance_of_isOutside houtside,
    advanceOutside, if_pos rfl, Text.skipString, Text.drop_eq_cons_of_getElem? hquote,
    List.isPrefixOf_cons_cons_self]
  split
  · rfl
  · show unitEndFrom ([string i] ++ entered) (i + 1) (text.drop (i + 1)) = _
    rw [hmore]
    cases unitEndFrom [string i] (i + 1) (text.drop (i + 1)) <;> rfl

/-- Where an interpolation opens in a string literal, the scan goes on behind its closing
bracket. -/
theorem unitEndFrom_interpolation_eq {start : Nat}
    (hbackslash : text[i]? = some (CodePoint.scalar '\\'))
    (hround : text[i + 1]? = some (CodePoint.scalar '(')) :
    unitEndFrom [string start] i (text.drop i) = (do
      let close ← unitEndFrom [bracket .round (i + 1)] (i + 1 + 1) (text.drop (i + 1 + 1))
      unitEndFrom [string start] (close + 1) (text.drop (close + 1))) := by
  have hapart : IsApart [bracket .round (i + 1)] [string start] := fun _ _ _ _ _ hhead =>
    by cases hhead
  rw [Text.drop_eq_cons_of_getElem? hbackslash, Text.drop_eq_cons_of_getElem? hround]
  exact @unitEndFrom_append _ _ (i + 1 + 1) text hapart (List.cons_ne_nil _ _)
    (List.cons_ne_nil _ _)

/-- Behind any other escape the scan goes on as well, even where a backslash ends the text. -/
theorem unitEndFrom_escape_eq {start : Nat} (hbackslash : text[i]? = some (CodePoint.scalar '\\'))
    (hround : text[i + 1]? ≠ some (CodePoint.scalar '(')) :
    unitEndFrom [string start] i (text.drop i) =
      unitEndFrom [string start] (i + 2) (text.drop (i + 2)) := by
  rw [Text.drop_eq_cons_of_getElem? hbackslash]
  show unitEndFrom [escape start] (i + 1) (text.drop (i + 1)) = _
  cases hd : text[i + 1]? with
  | none =>
    have hend := List.getElem?_eq_none_iff.1 hd
    rw [List.drop_eq_nil_of_le hend, List.drop_eq_nil_of_le (Nat.le_succ_of_le hend)]
    rfl
  | some d =>
    have hne : d ≠ '(' := fun heq => hround (heq ▸ hd)
    rw [Text.drop_eq_cons_of_getElem? hd, unitEndFrom, advance, if_neg hne]
    rfl

end Opening

namespace InPlace

open Opening (IsBrackets IsOutside unitEndFrom unfinished)

variable {text : Text} {i start steps : Nat}

/-! ## Both searches end

The cases of the induction come first. `ClosesAs` says what a search for a closing bracket comes to,
and it is carried over each kind of code point by one lemma. -/

/-- From `i` on, where these brackets are open, the search for a closing bracket comes to this, if
`atEnd` is the fault for the end of the text. -/
def ClosesAs (text : Text) (kinds : List Bracket) (i : Nat) (atEnd : ReadFault)
    (outcome : Reading Nat) : Prop :=
  ∃ found, Run.EndsBy (text.length - i) (closerFrom text kinds i) found ∧
    found >>= orFault atEnd = outcome

/-- With more steps than there are code points left, both searches come to what the scanner comes
to. It has entered the literal, or the brackets that the search knows by their kinds. -/
structure Agrees (text : Text) (i : Nat) : Prop where
  literal : ∀ start, Run.EndsBy (text.length - i) (literalEndFrom text start i)
    ((unitEndFrom [.string start] i (text.drop i)).map (· + 1))
  brackets : ∀ {entered kinds}, kinds ≠ [] → IsBrackets entered kinds →
    ClosesAs text kinds i (unfinished entered) (unitEndFrom entered i (text.drop i))

theorem exists_fewer (hi : i < text.length) (hsteps : text.length - i < steps) :
    ∃ fewer, steps = fewer + 1 ∧ text.length - (i + 1) < fewer := ⟨steps - 1, by omega, by omega⟩

/-- If the searches agree with the scanner behind a quote, the literal that it opens is skipped. -/
theorem behindQuote_of_agrees (h : Agrees text (start + 1))
    (hsteps : text.length - (start + 1) < steps) :
    behindQuote text start (literalEndFrom text start (start + 1) steps) =
      Run.ended (text.skipString start) := by
  rw [behindQuote, Text.skipString]
  split
  · rfl
  · rw [h.literal start steps hsteps]
    cases unitEndFrom [.string start] (start + 1) (text.drop (start + 1)) <;> rfl

section Closing

variable {kinds kinds' : List Bracket} {atEnd : ReadFault} {outcome : Reading Nat} {next : Nat}

/-- Where no bracket is open, the search is the one for the first closing bracket. -/
theorem ClosesAs.closer_endsBy (h : ClosesAs text [] i atEnd outcome) :
    Run.EndsBy (text.length - i) (closer text atEnd i) outcome := by
  obtain ⟨found, hfound, rfl⟩ := h
  exact hfound.bind fun _ _ => Run.endsBy_ended _ _

theorem closesAs_of_length_le (h : text[i]? = none) :
    ClosesAs text kinds i atEnd (.error atEnd) := by
  refine ⟨.ok none, fun steps hsteps => ?_, rfl⟩
  obtain ⟨fewer, rfl⟩ : ∃ fewer, steps = fewer + 1 := ⟨steps - 1, by omega⟩
  rw [closerFrom, h]
  rfl

/-- The search goes on further behind: if one turn is known, the rest needs fewer steps. -/
theorem ClosesAs.of_step (h : ClosesAs text kinds' next atEnd outcome) (hi : i < text.length)
    (hnext : i < next)
    (hstep : ∀ fewer, closerFrom text kinds i (fewer + 1) = closerFrom text kinds' next fewer) :
    ClosesAs text kinds i atEnd outcome := by
  obtain ⟨found, hfound, hsame⟩ := h
  refine ⟨found, fun steps hsteps => ?_, hsame⟩
  obtain ⟨fewer, rfl, hfewer⟩ := exists_fewer hi hsteps
  rw [hstep, hfound fewer (by omega)]

/-- The search ends where it is, with a bracket that is found or one that does not match. -/
theorem closesAs_of_ended {found : Reading (Option Nat)} (hi : i < text.length)
    (hstep : ∀ fewer, closerFrom text kinds i (fewer + 1) = Run.ended found) :
    ClosesAs text kinds i atEnd (found >>= orFault atEnd) := by
  refine ⟨found, fun steps hsteps => ?_, rfl⟩
  obtain ⟨fewer, rfl, _⟩ := exists_fewer hi hsteps
  exact hstep fewer

/-- Where a quote stands, the search goes on behind the string literal, or fails with it. -/
theorem closerFrom_quote (h : Agrees text (i + 1)) (hquote : text[i]? = some (CodePoint.scalar '"'))
    (hsteps : text.length - (i + 1) < steps) :
    closerFrom text kinds i (steps + 1) =
      Run.ended (text.skipString i) >>= fun e => closerFrom text kinds e steps := by
  rw [closerFrom, hquote]
  simp only [if_pos, behindQuote_of_agrees h hsteps]

/-- A string literal that is closed does not change what the search comes to. -/
theorem ClosesAs.of_skipString (hbehind : ClosesAs text kinds next atEnd outcome)
    (h : Agrees text (i + 1)) (hquote : text[i]? = some (CodePoint.scalar '"'))
    (hnext : text.skipString i = .ok next) :
    ClosesAs text kinds i atEnd outcome := by
  obtain ⟨found, hfound, hsame⟩ := hbehind
  obtain ⟨inside, _, _, hend, _⟩ := Text.exists_of_skipString hnext
  refine ⟨found, fun steps hsteps => ?_, hsame⟩
  obtain ⟨fewer, rfl, hfewer⟩ := exists_fewer (List.getElem?_eq_some_iff.1 hquote).1 hsteps
  rw [closerFrom_quote h hquote hfewer, hnext, Run.ended_ok_bind, hfound fewer (by omega)]

theorem closesAs_of_skipString_error {fault : ReadFault} (h : Agrees text (i + 1))
    (hquote : text[i]? = some (CodePoint.scalar '"')) (hfault : text.skipString i = .error fault) :
    ClosesAs text kinds i atEnd (.error fault) := by
  refine ⟨.error fault, fun steps hsteps => ?_, rfl⟩
  obtain ⟨fewer, rfl, hfewer⟩ := exists_fewer (List.getElem?_eq_some_iff.1 hquote).1 hsteps
  rw [closerFrom_quote h hquote hfewer, hfault]
  rfl

/-- Where a bracket stands, it is the first one that the search opens, and the scanner enters it
likewise. -/
theorem closesAs_of_opener {kind : Bracket} (h : Agrees text (i + 1))
    (hopener : text[i]? = some (CodePoint.scalar kind.opener)) :
    ClosesAs text [] i ⟨.unclosed kind, i⟩
      (unitEndFrom [.bracket kind i] (i + 1) (text.drop (i + 1))) := by
  have hkinds : IsBrackets [.bracket kind i] [kind] := .cons ⟨i, rfl⟩ .nil
  have hbehind := h.brackets (List.cons_ne_nil _ _) hkinds
  refine hbehind.of_step (List.getElem?_eq_some_iff.1 hopener).1 (Nat.lt_succ_self i) fun fewer =>
    ?_
  rw [closerFrom, hopener]
  cases kind <;> rfl

end Closing

/-- The search for the end of a literal agrees with the scanner, if both searches do so further
behind: at an interpolation, the search for its bracket is asked first, and then the search goes on
behind it. -/
theorem literalEndFrom_of_agrees (h : i < text.length → ∀ k, i < k → Agrees text k)
    (hsteps : text.length - i < steps) :
    literalEndFrom text start i steps =
      Run.ended ((unitEndFrom [.string start] i (text.drop i)).map (· + 1)) := by
  cases hc : text[i]? with
  | none =>
    obtain ⟨fewer, rfl⟩ : ∃ fewer, steps = fewer + 1 := ⟨steps - 1, by omega⟩
    rw [literalEndFrom, hc, List.drop_eq_nil_of_le (List.getElem?_eq_none_iff.1 hc)]
    rfl
  | some c =>
    have hi := (List.getElem?_eq_some_iff.1 hc).1
    have hlater := h hi
    obtain ⟨fewer, rfl, hfewer⟩ := exists_fewer hi hsteps
    rw [literalEndFrom, hc]
    dsimp only
    split
    · rename_i hbackslash
      subst hbackslash
      split
      · rename_i hround
        obtain ⟨found, hfound, hsame⟩ :=
          @closesAs_of_opener _ _ .round (hlater (i + 1 + 1) (by omega)) hround
        rw [hfound fewer hfewer, Opening.unitEndFrom_interpolation_eq hc hround, ← hsame]
        cases found with
        | error fault => rfl
        | ok found =>
          cases found with
          | none => rfl
          | some close =>
            -- The bracket was found behind the place from which it was searched.
            have hbounds := (Opening.bounds_of_unitEndFrom hsame.symm).1
            exact (hlater (close + 1) (by omega)).literal start fewer (by omega)
      · rename_i hround
        have hbehind := hlater (i + 2) (by omega)
        rw [hbehind.literal start fewer (by omega), Opening.unitEndFrom_escape_eq hc hround]
    · rename_i hbackslash
      rw [Text.drop_eq_cons_of_getElem? hc, unitEndFrom, Opening.advance, if_neg hbackslash]
      split
      · rfl
      · split
        · rfl
        · exact (hlater (i + 1) (by omega)).literal start fewer hfewer

/-- Behind a code point that is no quote, the search goes on with the brackets that are open then.
There are four cases: a bracket is opened, closed, or closed by one of another kind, or nothing
happens. -/
theorem closesAs_of_ne_quote {kind : Bracket} {outer : List Bracket} {below : List Opening}
    {first : Nat}
    {c : CodePoint} (h : Agrees text (i + 1)) (hc : text[i]? = some c) (hquote : c ≠ '"')
    (hbelow : IsBrackets below outer) :
    ClosesAs text (kind :: outer) i (unfinished (.bracket kind first :: below))
      (unitEndFrom (.bracket kind first :: below) i (text.drop i)) := by
  have hi := (List.getElem?_eq_some_iff.1 hc).1
  have hopen : IsBrackets (.bracket kind first :: below) (kind :: outer) :=
    .cons ⟨first, rfl⟩ hbelow
  rw [Text.drop_eq_cons_of_getElem? hc, unitEndFrom, Opening.advance, Opening.advanceOutside,
    if_neg hquote]
  cases hopener : Bracket.ofOpener? c with
  | some opened =>
    have hopened : IsBrackets (.bracket opened i :: .bracket kind first :: below)
        (opened :: kind :: outer) := .cons ⟨i, rfl⟩ hopen
    have hcloses := h.brackets (List.cons_ne_nil _ _) hopened
    refine hcloses.of_step hi (Nat.lt_succ_self i) fun fewer => ?_
    rw [closerFrom, hc]
    simp only [if_neg hquote, hopener]
  | none =>
    cases hcloser : Bracket.ofCloser? c with
    | none =>
      have hcloses := h.brackets (List.cons_ne_nil _ _) hopen
      refine hcloses.of_step hi (Nat.lt_succ_self i) fun fewer => ?_
      rw [closerFrom, hc]
      simp only [if_neg hquote, hopener, hcloser]
    | some closed =>
      dsimp only [Opening.close]
      by_cases hkind : kind = closed
      · rw [if_pos hkind]
        have hlower := hbelow
        -- If it was the last one open, the search ends here, and so does the unit.
        cases hlower with
        | nil =>
          refine @closesAs_of_ended _ _ _ _ (.ok (some i)) hi fun fewer => ?_
          rw [closerFrom, hc]
          simp only [if_neg hquote, hopener, hcloser, if_neg (not_not_intro hkind)]
          rfl
        | cons hunder _ =>
          obtain ⟨under, rfl⟩ := hunder
          have hcloses := h.brackets (List.cons_ne_nil _ _) hbelow
          refine hcloses.of_step hi (Nat.lt_succ_self i) fun fewer => ?_
          rw [closerFrom, hc]
          simp only [if_neg hquote, hopener, hcloser, if_neg (not_not_intro hkind)]
          rfl
      · rw [if_neg hkind]
        refine @closesAs_of_ended _ _ _ _ (.error ⟨.unbalanced closed, i⟩) hi fun fewer => ?_
        rw [closerFrom, hc]
        simp only [if_neg hquote, hopener, hcloser, if_pos hkind]
        rfl

/-- The search for a closing bracket agrees with the scanner, if both searches do so further
behind. -/
theorem closesAs_of_agrees (h : i < text.length → ∀ k, i < k → Agrees text k)
    {entered : List Opening}
    {kinds : List Bracket} (hne : kinds ≠ []) (hkinds : IsBrackets entered kinds) :
    ClosesAs text kinds i (unfinished entered) (unitEndFrom entered i (text.drop i)) := by
  cases hc : text[i]? with
  | none =>
    rw [List.drop_eq_nil_of_le (List.getElem?_eq_none_iff.1 hc)]
    exact closesAs_of_length_le hc
  | some c =>
    have hlater := h (List.getElem?_eq_some_iff.1 hc).1
    have hnext := hlater (i + 1) (Nat.lt_succ_self i)
    by_cases hquote : c = '"'
    · subst hquote
      have hentered : entered ≠ [] := fun hnil =>
        hne ((Opening.isEmpty_of_isBrackets hkinds).1 hnil)
      have houtside := Opening.isOutside_append hkinds Opening.isOutside_nil
      rw [List.append_nil] at houtside
      rw [Opening.unitEndFrom_quote_eq houtside hentered hc]
      cases hend : text.skipString i with
      | error fault => exact closesAs_of_skipString_error hnext hc hend
      | ok e =>
        obtain ⟨inside, _, _, he, _⟩ := Text.exists_of_skipString hend
        exact ((hlater e (by omega)).brackets hne hkinds).of_skipString hnext hc hend
    · cases hkinds with
      | nil => exact absurd rfl hne
      | cons hfirst hbelow =>
        obtain ⟨first, rfl⟩ := hfirst
        exact closesAs_of_ne_quote hnext hc hquote hbelow

/-- **Both searches agree with the scanner everywhere.** -/
theorem agrees (text : Text) (i : Nat) : Agrees text i := by
  -- By induction on the length of the text that is left. It is less wherever a search resumes,
  -- because a search that succeeds comes to an offset behind the one that it started from.
  induction hlength : text.length - i using Nat.strong_induction_on generalizing i with
  | _ length ih =>
    have hlater : i < text.length → ∀ k, i < k → Agrees text k := fun hi k hk =>
      ih (text.length - k) (by omega) k rfl
    exact ⟨fun _ _ hsteps => literalEndFrom_of_agrees hlater hsteps, closesAs_of_agrees hlater⟩

/-- **The search for the end of a string literal ends**, from every offset, with what the scanner
comes to. -/
theorem literalEnd_endsBy (text : Text) (start : Nat) :
    Run.EndsBy (text.length - (start + 1)) (literalEnd text start) (text.skipString start) :=
  fun _ hsteps => behindQuote_of_agrees (agrees text (start + 1)) hsteps

/-- Where a bracket stands, the scanner looks for the end of the unit that it opens. -/
theorem closerOf_eq {kind : Bracket} (h : text[i]? = some (CodePoint.scalar kind.opener)) :
    text.closerOf i = unitEndFrom [.bracket kind i] (i + 1) (text.drop (i + 1)) := by
  have hstart : (Opening.bracket kind i).blame.offset = i := rfl
  have hunit :
      Text.unitEnd (text.drop i) = unitEndFrom [.bracket kind 0] 1 (text.drop (i + 1)) := by
    rw [Text.drop_eq_cons_of_getElem? h]
    cases kind <;> rfl
  rw [Text.closerOf, hunit, Opening.unitEndFrom_singleton_eq hstart, Opening.earlier, Nat.sub_self]
  cases unitEndFrom [.bracket kind 0] 1 (text.drop (i + 1)) <;> rfl

/-- **The search for a closing bracket ends**, where a bracket stands, with what the scanner comes
to. -/
theorem closer_endsBy {kind : Bracket} (h : text[i]? = some (CodePoint.scalar kind.opener)) :
    Run.EndsBy (text.length - i) (closer text ⟨.unclosed kind, i⟩ i) (text.closerOf i) := by
  rw [closerOf_eq h]
  exact (closesAs_of_opener (agrees text (i + 1)) h).closer_endsBy

/-- From `i` on, the search opens the bracket at `k` first, which is the one at `i` if a bracket
stands there; and `j` is where the bracket stands that closes it. String literals in front of it may
hold brackets, and those are not opened. -/
structure IsFirstGroup (text : Text) (i k j : Nat) : Prop where
  le : i ≤ k
  opener : ∃ kind : Bracket, text[k]? = some (CodePoint.scalar kind.opener)
  closer : text.closerOf k = .ok j
  eq_of_opener : ∀ kind : Bracket, text[i]? = some (CodePoint.scalar kind.opener) → k = i

/-- In front of the first bracket, it is still the first one. -/
theorem IsFirstGroup.of_lt {next k j : Nat} {c : CodePoint} (h : IsFirstGroup text next k j)
    (hnext : i < next) (hc : text[i]? = some c)
    (hnone : ∀ kind : Bracket, c ≠ CodePoint.scalar kind.opener) :
    IsFirstGroup text i k j := by
  refine ⟨(Nat.le_of_lt hnext).trans h.le, h.opener, h.closer, fun kind hkind => ?_⟩
  rw [hc] at hkind
  exact absurd (Option.some.inj hkind) (hnone kind)

/-- Where a bracket stands, only the fault at the end of the text may be another one. -/
theorem exists_closesAs_of_opener {kind : Bracket}
    (hc : text[i]? = some (CodePoint.scalar kind.opener)) (atEnd : ReadFault) :
    ∃ outcome, ClosesAs text [] i atEnd outcome ∧ ∀ j, outcome = .ok j →
      IsFirstGroup text i i j := by
  obtain ⟨found, hfound, hsame⟩ := closesAs_of_opener (agrees text (i + 1)) hc
  rw [← closerOf_eq hc] at hsame
  refine ⟨_, ⟨found, hfound, rfl⟩, fun j hj => ⟨Nat.le_refl i, ⟨kind, hc⟩, ?_, fun _ _ => rfl⟩⟩
  obtain ⟨found, rfl, hvalue⟩ := Reading.bind_eq_ok.1 hj
  rw [← hsame]
  cases found with
  | none => cases hvalue
  | some close => exact hvalue

/-- From every offset the search comes to an outcome, and a bracket that it finds closes the first
one that is opened. -/
theorem exists_closesAs (text : Text) (atEnd : ReadFault) (i : Nat) :
    ∃ outcome, ClosesAs text [] i atEnd outcome ∧
      ∀ j, outcome = .ok j → ∃ k, IsFirstGroup text i k j := by
  -- By induction on the length of the text that is left, up to the first bracket.
  induction hlength : text.length - i using Nat.strong_induction_on generalizing i with
  | _ length ih =>
    subst hlength
    cases hc : text[i]? with
    | none => exact ⟨_, closesAs_of_length_le hc, fun j hj => by cases hj⟩
    | some c =>
      have hi := (List.getElem?_eq_some_iff.1 hc).1
      by_cases hquote : c = '"'
      · subst hquote
        cases hend : text.skipString i with
        | error fault =>
          exact ⟨_, closesAs_of_skipString_error (agrees text (i + 1)) hc hend,
            fun j hj => by cases hj⟩
        | ok e =>
          obtain ⟨inside, _, _, he, _⟩ := Text.exists_of_skipString hend
          obtain ⟨outcome, hcloses, hfirst⟩ := ih (text.length - e) (by omega) e rfl
          refine ⟨outcome, hcloses.of_skipString (agrees text (i + 1)) hc hend, fun j hj => ?_⟩
          obtain ⟨k, hgroup⟩ := hfirst j hj
          exact ⟨k, hgroup.of_lt (by omega) hc fun kind => by cases kind <;> decide⟩
      · cases hopener : Bracket.ofOpener? c with
        | some kind =>
          rw [Bracket.ofOpener?_eq_some_iff.1 hopener] at hc
          obtain ⟨outcome, hcloses, hgroup⟩ := exists_closesAs_of_opener hc atEnd
          exact ⟨outcome, hcloses, fun j hj => ⟨i, hgroup j hj⟩⟩
        | none =>
          have hnone : ∀ kind : Bracket, c ≠ CodePoint.scalar kind.opener := by
            intro kind hkind
            rw [Bracket.ofOpener?_eq_some_iff.2 hkind] at hopener
            cases hopener
          cases hcloser : Bracket.ofCloser? c with
          | some closed =>
            -- A closing bracket in front of any opening one closes nothing.
            have hfails : ClosesAs text [] i atEnd (.error ⟨.unbalanced closed, i⟩) := by
              refine @closesAs_of_ended _ _ _ _ (.error ⟨.unbalanced closed, i⟩) hi fun fewer => ?_
              rw [closerFrom, hc]
              simp only [if_neg hquote, hopener, hcloser]
              rfl
            exact ⟨_, hfails, fun j hj => by cases hj⟩
          | none =>
            obtain ⟨outcome, hcloses, hfirst⟩ := ih (text.length - (i + 1)) (by omega) (i + 1) rfl
            refine ⟨outcome, hcloses.of_step hi (Nat.lt_succ_self i) fun fewer => ?_,
              fun j hj => ?_⟩
            · rw [closerFrom, hc]
              simp only [if_neg hquote, hopener, hcloser]
            · obtain ⟨k, hgroup⟩ := hfirst j hj
              exact ⟨k, hgroup.of_lt (Nat.lt_succ_self i) hc hnone⟩

/-- **From every offset the search for a closing bracket ends.** If it does so at a bracket, then
this closes the first one that there is from the offset on: the one that stands there, if one
does. -/
theorem exists_closer_endsBy (text : Text) (atEnd : ReadFault) (i : Nat) :
    ∃ outcome, Run.EndsBy (text.length - i) (closer text atEnd i) outcome ∧
      ∀ j, outcome = .ok j → ∃ k, IsFirstGroup text i k j := by
  obtain ⟨outcome, hcloses, hfirst⟩ := exists_closesAs text atEnd i
  exact ⟨outcome, hcloses.closer_endsBy, hfirst⟩

end InPlace

end MemberSynthesis
