import Mathlib.Data.List.Basic
import MemberSynthesis.Proofs.Source.Placement
import MemberSynthesis.Proofs.Source.Step

/-!
# What the scanner blames

The scanner that looks for the end of a unit fails because of a code point or because the text ends
too soon. **Either way its fault stands where it is laid** (`isPlacedIn_of_unitEnd`): at its offset
there is the bracket that matches none, or the opening that is never left, or the quotes that start
no literal.

For the first kind this is one look at the step. The second kind is the hard one. When the text
ends, the fault is laid on *some* opening that was entered long before, and nothing in the state
says what text stood there; an opening holds its offset and no more. Nor is it always the innermost
one: of several brackets that are open within each other, the outermost is blamed.

The proof follows what is entered. A fault is either laid on the text that is still to be read, or
it is laid on an opening (`Opening.blame`) that was entered before. In the second case nothing below
that opening has a part in it (`placed_or_blamed`), and offsets may start to count anywhere
(`unitEndFrom_earlier`); so when the text is scanned from that opening on, the same fault comes out.
The induction goes from the end of the text to its start, and at the step that entered the opening,
the second case becomes the first (`standsBetween_of_opened`).

What the causes say of a place is defined elsewhere (`ReadCause.StandsBetween`), without the
scanner.
-/

set_option autoImplicit false

namespace MemberSynthesis

namespace Opening

variable {entered next outer : List Opening} {offset : Nat} {c : CodePoint} {text rest : Text}
  {fault : ReadFault}

/-! ## Scanning from elsewhere

Offsets serve the reports alone. Moving all of them, those on the stack included, moves the outcome
and changes nothing else; so a text is scanned in its place or by itself, as is convenient. -/

theorem unfinished_earlier (k : Nat) : ∀ entered : List Opening,
    unfinished (entered.map (earlier k)) =
      { unfinished entered with offset := (unfinished entered).offset - k }
  | [] => by simp [unfinished]
  | string _ :: _ => rfl
  | escape _ :: _ => rfl
  | [bracket _ _] => rfl
  | bracket _ _ :: string _ :: _ => rfl
  | bracket _ _ :: escape _ :: _ => rfl
  | bracket _ _ :: bracket kind start :: outer => by
    have h := unfinished_earlier k (bracket kind start :: outer)
    simp only [List.map_cons, earlier, unfinished] at h ⊢
    exact h

/-- **The scanner is the same wherever offsets start to count.** In particular a fault keeps its
distance from the place where the scan started. -/
theorem unitEndFrom_earlier (k : Nat) :
    unitEndFrom (entered.map (earlier k)) offset text =
      (unitEndFrom entered (offset + k) text).earlier k fun last => last - k := by
  induction text generalizing entered offset with
  | nil =>
    rw [unitEndFrom, unitEndFrom, unfinished_earlier]
    rfl
  | cons c rest ih =>
    rw [unitEndFrom, unitEndFrom, advance_earlier]
    cases hstep : advance entered (offset + k) c rest with
    | error fault => rfl
    | ok next =>
      show (if (next.map (earlier k)).isEmpty then _ else
        unitEndFrom (next.map (earlier k)) (offset + 1) rest) =
          Reading.earlier k _ (if next.isEmpty then _ else unitEndFrom next (offset + k + 1) rest)
      rw [List.isEmpty_map, ih, Nat.add_right_comm]
      split
      · show Except.ok offset = Except.ok (offset + k - k)
        rw [Nat.add_sub_cancel]
      · rfl

theorem unitEndFrom_of_advance (hstep : advance entered offset c rest = .ok next)
    (hne : next ≠ []) :
    unitEndFrom entered offset (c :: rest) = unitEndFrom next (offset + 1) rest := by
  rw [unitEndFrom, hstep]
  show (if next.isEmpty then _ else unitEndFrom next (offset + 1) rest) = _
  rw [if_neg (by simpa using hne)]

/-! ## What is blamed -/

/-- Of all that is entered at the end of a text, one opening is blamed, and it would be so without
what lies below it. Above it there are only brackets that were opened within it. -/
theorem exists_unfinished : ∀ {entered : List Opening}, entered ≠ [] →
    ∃ inner opening outer, entered = inner ++ opening :: outer ∧
      opening.blame = unfinished entered ∧ unfinished (inner ++ [opening]) = unfinished entered
  | [], h => absurd rfl h
  | string start :: outer, _ => ⟨[], string start, outer, rfl, rfl, rfl⟩
  | escape start :: outer, _ => ⟨[], escape start, outer, rfl, rfl, rfl⟩
  | [bracket kind start], _ => ⟨[], bracket kind start, [], rfl, rfl, rfl⟩
  | bracket kind start :: string first :: outer, _ =>
    ⟨[], bracket kind start, string first :: outer, rfl, rfl, rfl⟩
  | bracket kind start :: escape first :: outer, _ =>
    ⟨[], bracket kind start, escape first :: outer, rfl, rfl, rfl⟩
  | bracket kind start :: bracket below first :: outer, _ => by
    obtain ⟨inner, opening, rest, hentered, hblame, hunfinished⟩ :=
      exists_unfinished (List.cons_ne_nil (bracket below first) outer)
    refine ⟨bracket kind start :: inner, opening, rest, by rw [hentered]; rfl, hblame, ?_⟩
    rw [unfinished, ← hunfinished]
    cases inner with
    | nil =>
      cases hentered
      rfl
    | cons top inner =>
      cases hentered
      rfl

/-- Outside string literals a step fails because of its code point: a closing bracket, or quotes
that can not start a literal. -/
theorem standsBetween_of_advanceOutside (h : advanceOutside entered offset c rest = .error fault) :
    fault.offset = offset ∧ fault.cause.StandsBetween [] (c :: rest) := by
  unfold advanceOutside at h
  split at h
  · rename_i hquote
    split at h
    · rename_i hmore
      cases h
      subst hquote
      exact ⟨rfl, List.cons_prefix_cons.2 ⟨rfl, List.isPrefixOf_iff_prefix.1 hmore⟩⟩
    · cases h
  · split at h
    · cases h
    · split at h
      · rename_i closed hcloser
        have hclosed : c = closed.closer := Bracket.ofCloser?_eq_some_iff.1 hcloser
        unfold close at h
        split at h
        · split at h
          · cases h
          · cases h
            exact ⟨rfl, congrArg some hclosed⟩
        · cases h
          exact ⟨rfl, congrArg some hclosed⟩
      · cases h

/-- A step fails because of its code point or because of the innermost opening, which is then a
string literal that a line feed would stand in. -/
theorem placed_or_blamed_of_advance (h : advance entered offset c rest = .error fault) :
    (fault.offset = offset ∧ fault.cause.StandsBetween [] (c :: rest)) ∨
      ∃ top outer, entered = top :: outer ∧ top.blame = fault ∧
        advance [top] offset c rest = .error fault := by
  cases entered with
  | nil => exact .inl (standsBetween_of_advanceOutside h)
  | cons top outer =>
    rw [advance_cons] at h
    cases hstep : advance [top] offset c rest with
    | ok still =>
      rw [hstep] at h
      cases h
    | error found =>
      rw [hstep] at h
      cases h
      cases top with
      -- A bracket never fails by its own place, but a string does when its line ends.
      | bracket kind start => exact .inl (standsBetween_of_advanceOutside hstep)
      | string start =>
        refine .inr ⟨string start, outer, rfl, ?_, hstep⟩
        simp only [advance] at hstep
        split at hstep
        · cases hstep
        · split at hstep
          · cases hstep
          · split at hstep
            · cases hstep
              rfl
            · cases hstep
      | escape start =>
        simp only [advance] at hstep
        split at hstep <;> cases hstep

/-- **What opens here and is blamed for a fault is blamed for it at this place.** The text behind it
is what shows that it is never closed. -/
theorem standsBetween_of_opened {opened : Opening} (hstep : advance [] offset c rest = .ok [opened])
    (hrest : unitEndFrom [opened] (offset + 1) rest = .error fault)
    (hblame : opened.blame = fault) :
    fault.offset = offset ∧ fault.cause.StandsBetween [] (c :: rest) := by
  -- Scanned from here, offsets start to count at the opening.
  have hhere : advance [] 0 c rest = .ok [opened.earlier offset] := by
    have h := @advance_earlier [] 0 c rest offset
    rw [Nat.zero_add, hstep] at h
    exact h
  have hunit :
      Text.unitEnd (c :: rest) = .error { fault with offset := fault.offset - offset } := by
    have h := @unitEndFrom_earlier [opened] 1 rest offset
    rw [Nat.add_comm 1 offset, hrest] at h
    rw [Text.unitEnd, unitEndFrom_of_advance hhere (List.cons_ne_nil _ _)]
    exact h
  subst hblame
  rcases advance_nil_cases hstep with h | ⟨rfl, h⟩ | ⟨kind, rfl, h⟩
  · cases h
  · cases h
    rw [show (string offset).blame.offset - offset = 0 from Nat.sub_self offset] at hunit
    exact ⟨rfl, rfl, hunit⟩
  · cases h
    rw [show (bracket kind offset).blame.offset - offset = 0 from Nat.sub_self offset] at hunit
    exact ⟨rfl, rfl, hunit⟩

/-- After a step from `top`, an opening that is blamed was entered before it, or by it. In the first
case it lies in `top`, which is blamed in its turn. -/
theorem placed_or_blamed_of_still {top opening : Opening} {inner below : List Opening}
    (hstep : advance [top] offset c rest = .ok (inner ++ opening :: below))
    (hrun : unitEndFrom (inner ++ [opening]) (offset + 1) rest = .error fault)
    (hblame : opening.blame = fault) :
    (fault.offset = offset ∧ fault.cause.StandsBetween [] (c :: rest)) ∨
      top.blame = fault ∧ unitEndFrom [top] offset (c :: rest) = .error fault := by
  rcases advance_singleton hstep with hnil | ⟨still, hstill, hone | ⟨opened, htwo, hopened⟩⟩
  · simp at hnil
  · rw [List.append_eq_singleton_iff] at hone
    rcases hone with ⟨rfl, hone⟩ | ⟨_, hone⟩
    · cases hone
      refine .inr ⟨hstill.symm.trans hblame, ?_⟩
      rw [unitEndFrom_of_advance hstep (List.cons_ne_nil _ _)]
      exact hrun
    · cases hone
  · cases inner with
    | nil =>
      cases htwo
      exact .inl (standsBetween_of_opened hopened hrun hblame)
    | cons first inner =>
      rw [List.cons_append, List.cons.injEq, List.append_eq_singleton_iff] at htwo
      rcases htwo with ⟨rfl, ⟨rfl, htwo⟩ | ⟨_, htwo⟩⟩
      · cases htwo
        refine .inr ⟨hstill.symm.trans hblame, ?_⟩
        rw [unitEndFrom_of_advance hstep (List.cons_ne_nil _ _)]
        exact hrun
      · cases htwo

theorem eq_append_of_append_cons {inner outer still below : List Opening} {opening : Opening}
    (h : inner ++ opening :: outer = still ++ below) :
    (∃ passed, inner = still ++ passed ∧ below = passed ++ opening :: outer) ∨
      ∃ added, still = inner ++ opening :: added ∧ outer = added ++ below := by
  rcases List.append_eq_append_iff.1 h with ⟨added, rfl, hadded⟩ | ⟨passed, rfl, rfl⟩
  · cases added with
    | nil => exact .inl ⟨[], by simp, hadded.symm⟩
    | cons first added =>
      cases hadded
      exact .inr ⟨added, rfl, rfl⟩
  · exact .inl ⟨passed, rfl, rfl⟩

/-- **A fault is laid on the text that is still to be read or on an opening**, and then it would be
so without what lies below this opening. This is what a run preserves, read from its end. -/
theorem placed_or_blamed : ∀ {entered : List Opening} {offset : Nat}, entered ≠ [] →
    unitEndFrom entered offset text = .error fault →
    (∃ before after, text = before ++ after ∧ offset + before.length = fault.offset ∧
      fault.cause.StandsBetween before after) ∨
      ∃ inner opening outer, entered = inner ++ opening :: outer ∧ opening.blame = fault ∧
        unitEndFrom (inner ++ [opening]) offset text = .error fault := by
  induction text with
  | nil =>
    intro entered offset hne h
    cases h
    obtain ⟨inner, opening, outer, hentered, hblame, hunfinished⟩ := exists_unfinished hne
    exact .inr ⟨inner, opening, outer, hentered, hblame, congrArg Except.error hunfinished⟩
  | cons c rest ih =>
    intro entered offset hne h
    rw [unitEndFrom] at h
    rcases Outcome.bind_eq_error_iff.1 h with hstep | ⟨next, hstep, hnext⟩
    · rcases placed_or_blamed_of_advance hstep with
        ⟨hoffset, hcause⟩ | ⟨top, outer, rfl, hblame, htop⟩
      · exact .inl ⟨[], c :: rest, rfl, hoffset.symm, hcause⟩
      · refine .inr ⟨[], top, outer, rfl, hblame, ?_⟩
        rw [List.nil_append, unitEndFrom, htop]
        rfl
    · split at hnext
      · cases hnext
      · rename_i hempty
        have hnonempty : next ≠ [] := by simpa using hempty
        rcases ih hnonempty hnext with ⟨before, after, rfl, hoffset, hcause⟩ |
          ⟨inner, opening, outer, hentered, hblame, hrun⟩
        · refine .inl ⟨c :: before, after, rfl, ?_, hcause.append [c]⟩
          rw [← hoffset, List.length_cons]
          omega
        · cases entered with
          | nil => exact absurd rfl hne
          | cons top below =>
            obtain ⟨still, htop, hstill⟩ := advance_cons_eq_ok hstep
            rw [hentered] at hstill
            -- The opening that is blamed lies below what the step left of `top`, or is part of
            -- that.
            rcases eq_append_of_append_cons hstill with ⟨passed, rfl, rfl⟩ | ⟨added, rfl, rfl⟩
            · refine .inr ⟨top :: passed, opening, outer, rfl, hblame, ?_⟩
              have hkept : advance (top :: passed ++ [opening]) offset c rest =
                  .ok (still ++ passed ++ [opening]) := by
                rw [List.cons_append, advance_cons, htop, List.append_assoc]
                rfl
              rw [unitEndFrom_of_advance hkept (by simp)]
              exact hrun
            · rcases placed_or_blamed_of_still htop hrun hblame with
                ⟨hoffset, hcause⟩ | ⟨hsame, hrun⟩
              · exact .inl ⟨[], c :: rest, rfl, hoffset.symm, hcause⟩
              · exact .inr ⟨[], top, below, rfl, hsame, hrun⟩

end Opening

/-- **A fault of a unit stands where it is laid.** The unit starts with nothing entered, so there is
no opening from before that could be blamed. -/
theorem ReadFault.isPlacedIn_of_unitEnd {text : Text} {fault : ReadFault} (hne : text ≠ [])
    (h : text.unitEnd = .error fault) : fault.IsPlacedIn text := by
  cases text with
  | nil => exact absurd rfl hne
  | cons c rest =>
    rw [Text.unitEnd, Opening.unitEndFrom] at h
    rcases Outcome.bind_eq_error_iff.1 h with hstep | ⟨next, hstep, hnext⟩
    · rcases Opening.placed_or_blamed_of_advance hstep with ⟨hoffset, hcause⟩ | ⟨_, _, hnil, _⟩
      · exact ⟨[], c :: rest, rfl, hoffset.symm, hcause⟩
      · cases hnil
    · split at hnext
      · cases hnext
      · rename_i hempty
        have hnonempty : next ≠ [] := by simpa using hempty
        rcases Opening.placed_or_blamed hnonempty hnext with ⟨before, after, rfl, hoffset, hcause⟩ |
          ⟨inner, opening, outer, hentered, hblame, hrun⟩
        · refine ⟨c :: before, after, rfl, ?_, hcause.append [c]⟩
          rw [← hoffset, List.length_cons, Nat.zero_add, Nat.add_comm]
        · -- Only what the first code point opened can be blamed.
          obtain ⟨opened, hopened⟩ : ∃ opened, next = [opened] := by
            rcases Opening.advance_nil_cases hstep with hnil | ⟨_, hone⟩ | ⟨_, _, hone⟩
            · exact absurd hnil hnonempty
            · exact ⟨_, hone⟩
            · exact ⟨_, hone⟩
          rw [hopened] at hentered hstep
          obtain ⟨rfl, hlast⟩ : inner = [] ∧ opening :: outer = [opened] := by
            rcases List.append_eq_singleton_iff.1 hentered.symm with h | ⟨_, h⟩
            · exact h
            · cases h
          cases hlast
          obtain ⟨hoffset, hcause⟩ := Opening.standsBetween_of_opened hstep hrun hblame
          exact ⟨[], c :: rest, rfl, hoffset.symm, hcause⟩

end MemberSynthesis
