import MemberSynthesis.Proofs.Source.Within

/-!
# One step of the scanner

What a code point does depends on the innermost opening alone, and what lies below that stays as it
is (`advance_cons`). The laws of a step that all scanners share follow from this frame rule. **A
step can be taken with more entered below it** (`advance_append`), **a step above a bracket either
closes the bracket or leaves it alone** (`closes_or_keeps_of_advance`), and a step with one opening
leaves it, stays in it, or enters one more (`advance_singleton`).

Two things in a step are accidental: how far the text goes on, of which only two quotes in a row can
be seen (`advance_of_isPrefix`, `advance_append_text`), and where offsets start to count
(`advance_earlier`).

These are the only proofs that unfold a step and go through its branches. What is proved about runs
of the scanner later on cites them, run by run and by induction, and would not have to change if a
further kind of opening were added that obeys them.

The frame rule has one exception, and it is the reason for `IsOutside`: a string literal that comes
to be innermost decides what a code point means. So where nothing is entered above, nothing may be
said about a step unless what lies below is no string literal.
-/

set_option autoImplicit false

namespace MemberSynthesis

namespace Opening

variable {entered next outer : List Opening} {offset : Nat} {c : CodePoint} {rest : Text}

/-! ## Outside string literals

There a code point opens something, closes the innermost bracket, or does nothing at all. -/

/-- What a code point enters where nothing is entered, it enters outside all string literals, above
what is there. -/
theorem advanceOutside_of_nil (h : advance [] offset c rest = .ok next) :
    advanceOutside entered offset c rest = .ok (next ++ entered) := by
  rw [advance] at h
  unfold advanceOutside at h ⊢
  split at h
  · rename_i hquote
    rw [if_pos hquote]
    split at h
    · cases h
    · rename_i hmore
      cases h
      rw [if_neg hmore]
      rfl
  · rename_i hquote
    rw [if_neg hquote]
    cases hopener : Bracket.ofOpener? c with
    | some opened =>
      rw [hopener] at h
      cases h
      rfl
    | none =>
      rw [hopener] at h
      cases hcloser : Bracket.ofCloser? c with
      | some closed =>
        rw [hcloser] at h
        cases h
      | none =>
        rw [hcloser] at h
        cases h
        rfl

/-- Outside string literals, a code point does what it does where nothing is entered, or it closes a
bracket. A code point that closes one is a fault where nothing is entered, and so the two do not
overlap. -/
theorem advanceOutside_cases (h : advanceOutside entered offset c rest = .ok next) :
    (∃ new, advance [] offset c rest = .ok new ∧ next = new ++ entered) ∨
      ∃ kind start, entered = bracket kind start :: next ∧ c = kind.closer := by
  cases hnil : advance [] offset c rest with
  | ok new =>
    rw [advanceOutside_of_nil hnil] at h
    cases h
    exact .inl ⟨new, rfl, rfl⟩
  | error fault =>
    -- A step that is taken here and fails where nothing is entered can only close a bracket.
    right
    rw [advance] at hnil
    unfold advanceOutside at h hnil
    split at h
    · rename_i hquote
      rw [if_pos hquote] at hnil
      split at h
      · cases h
      · rename_i hmore
        rw [if_neg hmore] at hnil
        cases hnil
    · rename_i hquote
      rw [if_neg hquote] at hnil
      cases hopener : Bracket.ofOpener? c with
      | some opened =>
        rw [hopener] at hnil
        cases hnil
      | none =>
        rw [hopener] at h hnil
        cases hcloser : Bracket.ofCloser? c with
        | none =>
          rw [hcloser] at hnil
          cases hnil
        | some closed =>
          rw [hcloser] at h
          simp only [close] at h
          split at h
          · split at h
            · rename_i kind start below hkind
              cases h
              rw [← hkind] at hcloser
              exact ⟨_, _, rfl, Bracket.ofCloser?_eq_some_iff.1 hcloser⟩
            · cases h
          · cases h

/-- Where nothing is entered, a code point enters nothing or what it opens. -/
theorem advance_nil_cases (h : advance [] offset c rest = .ok next) :
    next = [] ∨ (c = '"' ∧ next = [string offset]) ∨
      ∃ kind, c = kind.opener ∧ next = [bracket kind offset] := by
  rw [advance] at h
  unfold advanceOutside at h
  split at h
  · rename_i hquote
    split at h
    · cases h
    · cases h
      exact .inr (.inl ⟨hquote, rfl⟩)
  · cases hopener : Bracket.ofOpener? c with
    | some opened =>
      rw [hopener] at h
      cases h
      exact .inr (.inr ⟨opened, Bracket.ofOpener?_eq_some_iff.1 hopener, rfl⟩)
    | none =>
      rw [hopener] at h
      cases hcloser : Bracket.ofCloser? c with
      | some closed =>
        rw [hcloser] at h
        cases h
      | none =>
        rw [hcloser] at h
        cases h
        exact .inl rfl

/-! ## The frame

The part of a step that concerns what lies below, which is none. All other laws of the stack are
derived from it. -/

/-- **A step acts on the innermost opening**: what lies below it stays as it is. -/
theorem advance_cons (top : Opening) (outer : List Opening) :
    advance (top :: outer) offset c rest =
      (advance [top] offset c rest).map fun still => still ++ outer := by
  cases top with
  | bracket kind start =>
    simp only [advance, advanceOutside]
    split
    · split <;> rfl
    · split
      · rfl
      · split
        · simp only [close]
          split <;> rfl
        · rfl
  | string start =>
    simp only [advance]
    split
    · rfl
    · split
      · rfl
      · split <;> rfl
  | escape start =>
    simp only [advance]
    split <;> rfl

/-- A step that succeeds does so on the innermost opening, and puts what it comes to in its
place. -/
theorem advance_cons_eq_ok {top : Opening} (h : advance (top :: outer) offset c rest = .ok next) :
    ∃ still, advance [top] offset c rest = .ok still ∧ next = still ++ outer := by
  rw [advance_cons] at h
  cases hstep : advance [top] offset c rest with
  | error fault =>
    rw [hstep] at h
    cases h
  | ok still =>
    rw [hstep] at h
    cases h
    exact ⟨still, rfl, rfl⟩

/-- **A step can be taken with more entered below it**, unless that is a string literal which comes
to be innermost. -/
theorem advance_append (h : advance entered offset c rest = .ok next) (houter : IsOutside outer) :
    advance (entered ++ outer) offset c rest = .ok (next ++ outer) := by
  cases entered with
  | nil =>
    rw [List.nil_append, advance_of_isOutside houter]
    exact advanceOutside_of_nil h
  | cons top below =>
    obtain ⟨still, hstep, rfl⟩ := advance_cons_eq_ok h
    rw [List.cons_append, advance_cons, hstep]
    show Except.ok (still ++ (below ++ outer)) = _
    rw [List.append_assoc]

/-- **A step above a bracket closes it or keeps it**, and in the second case it can be taken without
the bracket and all that lies below. -/
theorem closes_or_keeps_of_advance {kind : Bracket} {start : Nat}
    (h : advance (entered ++ bracket kind start :: outer) offset c rest = .ok next) :
    (entered = [] ∧ c = kind.closer ∧ next = outer) ∨
      ∃ still, advance entered offset c rest = .ok still ∧
        next = still ++ bracket kind start :: outer := by
  -- If nothing is entered above the bracket, it is the innermost opening and can be closed.
  cases entered with
  | nil =>
    rw [List.nil_append, advance_of_isOutside isOutside_bracket] at h
    rcases advanceOutside_cases h with ⟨new, hnil, rfl⟩ | ⟨_, _, hentered, hc⟩
    · exact .inr ⟨new, hnil, rfl⟩
    · cases hentered
      exact .inl ⟨rfl, hc, rfl⟩
  | cons top below =>
    obtain ⟨still, hstep, rfl⟩ := advance_cons_eq_ok h
    refine .inr ⟨still ++ below, ?_, (List.append_assoc still below _).symm⟩
    rw [advance_cons, hstep]
    rfl

/-- The fault of a text that ends while this is open. A backslash that waits is no reason of its
own: the string is not closed. -/
def blame : Opening → ReadFault
  | bracket kind start => ⟨.unclosed kind, start⟩
  | string start => ⟨.unterminatedString, start⟩
  | escape start => ⟨.unterminatedString, start⟩

/-- **A step with one opening leaves it, stays in it, or enters one more above it.** What stays may
have changed from a string to one with a backslash waiting, but it is blamed as before. -/
theorem advance_singleton {top : Opening} (h : advance [top] offset c rest = .ok next) :
    next = [] ∨ ∃ still, still.blame = top.blame ∧
      (next = [still] ∨ ∃ opened, next = [opened, still] ∧
        advance [] offset c rest = .ok [opened]) := by
  cases top with
  | bracket kind start =>
    rw [advance_of_isOutside isOutside_bracket] at h
    rcases advanceOutside_cases h with ⟨new, hnil, rfl⟩ | ⟨_, _, hentered, _⟩
    · right
      refine ⟨bracket kind start, rfl, ?_⟩
      rcases advance_nil_cases hnil with rfl | ⟨_, rfl⟩ | ⟨_, _, rfl⟩
      · exact .inl rfl
      · exact .inr ⟨_, rfl, hnil⟩
      · exact .inr ⟨_, rfl, hnil⟩
    · cases hentered
      exact .inl rfl
  | string start =>
    simp only [advance] at h
    split at h
    · cases h
      exact .inr ⟨escape start, rfl, .inl rfl⟩
    · split at h
      · cases h
        exact .inl rfl
      · split at h
        · cases h
        · cases h
          exact .inr ⟨string start, rfl, .inl rfl⟩
  | escape start =>
    simp only [advance] at h
    split at h
    · rename_i hround
      cases h
      -- An interpolation: the string stays below the bracket, and no backslash waits any more.
      subst hround
      exact .inr ⟨string start, rfl, .inr ⟨_, rfl, rfl⟩⟩
    · cases h
      exact .inr ⟨string start, rfl, .inl rfl⟩

/-! ## The text after a step, and the offsets

A step is given the text that follows its code point for one purpose only, which is to tell a quote
from three of them; and it is given its offset only to keep it. -/

/-- **A step does not depend on how far the text goes on**: where it succeeds, it does so with less
text after it. With more it might not, as two quotes could follow. -/
theorem advance_of_isPrefix {more shorter : Text}
    (h : advance entered offset c (more ++ rest) = .ok next) (hshorter : shorter <+: rest) :
    advance entered offset c (more ++ shorter) = .ok next := by
  have houtside : ∀ below, advanceOutside below offset c (more ++ rest) = .ok next →
      advanceOutside below offset c (more ++ shorter) = .ok next := by
    intro below h
    unfold advanceOutside at h ⊢
    split at h
    · rename_i hquote
      rw [if_pos hquote]
      split at h
      · cases h
      · rename_i hmore
        rw [if_neg, ← h]
        intro hquotes
        rw [List.isPrefixOf_iff_prefix] at hquotes hmore
        exact hmore (hquotes.trans (List.prefix_append_right_inj more |>.2 hshorter))
    · rename_i hquote
      rw [if_neg hquote]
      exact h
  cases entered with
  | nil => exact houtside [] h
  | cons top below =>
    cases top with
    | bracket kind start => exact houtside _ h
    | string start => exact h
    | escape start => exact h

/-- **A step does not see what follows a stretch of text unless that starts with a quote**, which
could be the second or the third one in a row. -/
theorem advance_append_text {more : Text} (hrest : rest.head? ≠ some (CodePoint.scalar '"')) :
    advance entered offset c (more ++ rest) = advance entered offset c more := by
  have hquotes : (['"', '"'] : Text).isPrefixOf (more ++ rest) =
      (['"', '"'] : Text).isPrefixOf more := by
    cases rest with
    | nil => rw [List.append_nil]
    | cons d rest =>
      have hd : (CodePoint.scalar '"' == d) = false :=
        beq_false_of_ne fun h => hrest (congrArg some h.symm)
      match more with
      | [] => simp [List.isPrefixOf, hd]
      | [e] => simp [List.isPrefixOf, hd]
      | _ :: _ :: _ => simp [List.isPrefixOf]
  cases entered with
  | nil => simp only [advance, advanceOutside, hquotes]
  | cons top below =>
    cases top with
    | bracket kind start => simp only [advance, advanceOutside, hquotes]
    | string start => rfl
    | escape start => rfl

/-- The opening with offsets that start to count later, and so are smaller by `k`. -/
def earlier (k : Nat) : Opening → Opening
  | bracket kind start => bracket kind (start - k)
  | string start => string (start - k)
  | escape start => escape (start - k)

end Opening

/-- A reading with offsets that start to count later, its result changed alike. -/
def Reading.earlier {α : Type} (k : Nat) (change : α → α) : Reading α → Reading α
  | .ok a => .ok (change a)
  | .error fault => .error { fault with offset := fault.offset - k }

namespace Opening

variable {entered : List Opening} {offset : Nat} {c : CodePoint} {rest : Text}

/-- Closing a bracket looks at its kind, and not at where it opened. -/
theorem close_earlier (k : Nat) (closed : Bracket) :
    close closed offset (entered.map (earlier k)) =
      (close closed (offset + k) entered).earlier k (List.map (earlier k)) := by
  have hfault : Reading.earlier k (List.map (earlier k)) (.error ⟨.unbalanced closed, offset + k⟩) =
      .error ⟨.unbalanced closed, offset⟩ := by
    simp only [Reading.earlier, Nat.add_sub_cancel]
  cases entered with
  | nil => exact hfault.symm
  | cons top below =>
    cases top with
    | bracket kind start =>
      simp only [List.map_cons, earlier, close]
      split
      · rfl
      · exact hfault.symm
    | string start => exact hfault.symm
    | escape start => exact hfault.symm

/-- What is opened is kept with its offset, and nothing else is done with that. -/
theorem advanceOutside_earlier (k : Nat) :
    advanceOutside (entered.map (earlier k)) offset c rest =
      (advanceOutside entered (offset + k) c rest).earlier k (List.map (earlier k)) := by
  unfold advanceOutside
  split
  · split
    · simp only [Reading.earlier, Nat.add_sub_cancel]
    · simp only [Reading.earlier, List.map_cons, earlier, Nat.add_sub_cancel]
  · cases Bracket.ofOpener? c with
    | some opened => simp only [Reading.earlier, List.map_cons, earlier, Nat.add_sub_cancel]
    | none =>
      cases Bracket.ofCloser? c with
      | some closed => exact close_earlier k closed
      | none => rfl

/-- **A step is the same wherever offsets start to count.** -/
theorem advance_earlier (k : Nat) :
    advance (entered.map (earlier k)) offset c rest =
      (advance entered (offset + k) c rest).earlier k (List.map (earlier k)) := by
  cases entered with
  | nil => exact @advanceOutside_earlier [] offset c rest k
  | cons top below =>
    cases top with
    | bracket kind start =>
      exact @advanceOutside_earlier (bracket kind start :: below) offset c rest k
    | string start =>
      simp only [List.map_cons, earlier, advance]
      split
      · rfl
      · split
        · rfl
        · split <;> rfl
    | escape start =>
      simp only [List.map_cons, earlier, advance]
      split
      · simp only [Reading.earlier, List.map_cons, earlier, Nat.add_sub_cancel]
      · rfl

end Opening

end MemberSynthesis
