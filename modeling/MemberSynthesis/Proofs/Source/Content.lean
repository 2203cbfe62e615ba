import MemberSynthesis.Proofs.Source.Passing
import MemberSynthesis.Proofs.Source.Placement
import MemberSynthesis.Proofs.Text.HexNumeral
import MemberSynthesis.Source.StringLiteral

/-!
# Faults inside a string literal

The content of a string literal is read from the text between its quotes, which the scanner has gone
over before. The two have to agree where each escape ends, or else the reader would look for code
points past the closing quote, and its fault would be one that no place in the text can have. They
do agree: **wherever the reader is, the scanner is inside the literal and between two escapes**, and
this invariant is all that carries the proof (`isPlacedIn_read`).

Most escapes are a backslash and one code point, for both. Two are longer. An interpolation ends for
both at the bracket that closes it, which the reader finds by a scan of its own, from the opening
bracket and without the literal around it (`exists_interpolation`). And a numeral in braces ends for
the reader at the first closing brace, while the scanner knows nothing of braces and goes straight
through: it may do so because a numeral that names a code point holds no backslash
(`not_mem_of_codePoint?`), and no quote.

That the reader never runs past the end is thus a fact about the pair. For a text that is not the
inside of a literal it is false.
-/

set_option autoImplicit false

namespace MemberSynthesis

/-- **A numeral that numbers a code point holds no backslash**: that is neither a digit nor a sign
of the notation nor a blank. -/
theorem HexNumeral.not_mem_of_codePoint? {numeral : Text} {c : CodePoint}
    (h : codePoint? numeral = some c) : CodePoint.scalar '\\' ∉ numeral :=
  not_mem_of_spells (value?_eq_some_iff.1 (codePoint?_eq_some_iff.1 h)) (by decide) (by decide)
    (by decide)

namespace Opening

variable {offset start last : Nat} {c : CodePoint} {rest : Text}

/-! ## The scanner in a string literal

What the scanner does from inside of a literal, code point by code point, in the form of what must
follow if it ends the literal at `last`. -/

/-- A unit that starts with a quote ends where the literal does, since three quotes start none. -/
theorem unitEndFrom_quote (h : Text.unitEnd (CodePoint.scalar '"' :: rest) = .ok last) :
    unitEndFrom [string 0] 1 rest = .ok last := by
  rw [Text.unitEnd, unitEndFrom, advance, advanceOutside, if_pos rfl] at h
  split at h
  · cases h
  · exact h

/-- In a string literal, a code point other than a backslash is passed over, or it is the quote that
ends the literal. -/
theorem unitEndFrom_string (hc : c ≠ '\\')
    (h : unitEndFrom [string start] offset (c :: rest) = .ok last) :
    last = offset ∨ unitEndFrom [string start] (offset + 1) rest = .ok last := by
  rw [unitEndFrom, advance, if_neg hc] at h
  split at h
  · cases h
    exact .inl rfl
  · split at h
    · cases h
    · exact .inr h

/-- After a backslash, a round bracket opens an interpolation, and any other code point is passed
over, a quote and a backslash among them. -/
theorem unitEndFrom_backslash {d : CodePoint}
    (h : unitEndFrom [string start] offset ('\\' :: d :: rest) = .ok last) :
    if d = '(' then
      unitEndFrom [bracket .round (offset + 1), string start] (offset + 2) rest = .ok last
    else unitEndFrom [string start] (offset + 2) rest = .ok last := by
  split
  · rename_i hd
    subst hd
    exact h
  · rename_i hd
    have hstep : advance [escape start] (offset + 1) d rest = .ok [string start] := by
      rw [advance, if_neg hd]
    have hescape : unitEndFrom [escape start] (offset + 1) (d :: rest) = .ok last := h
    rw [unitEndFrom, hstep] at hescape
    exact hescape

/-- Nothing ends right after a backslash: the code point behind it is passed over, and an opened
interpolation has to be closed. -/
theorem unitEndFrom_backslash_singleton {final : CodePoint} :
    unitEndFrom [string start] offset ['\\', final] ≠ .ok last := by
  intro h
  have hmore := unitEndFrom_backslash h
  split at hmore <;> cases hmore

/-- Text without backslashes is passed over as far as the literal goes. A quote in it would end the
literal before `last`. -/
theorem unitEndFrom_string_append {text : Text} (htext : CodePoint.scalar '\\' ∉ text)
    (h : unitEndFrom [string start] offset (text ++ rest) = .ok last)
    (hlast : offset + text.length ≤ last) :
    unitEndFrom [string start] (offset + text.length) rest = .ok last := by
  induction text generalizing offset with
  | nil => exact h
  | cons c text ih =>
    rw [List.mem_cons, not_or] at htext
    rw [List.length_cons, Nat.add_comm text.length 1, ← Nat.add_assoc] at hlast ⊢
    rcases unitEndFrom_string (Ne.symm htext.1) h with hend | hmore
    · omega
    · exact ih htext.2 hmore hlast

/-- The scanner goes through a numeral in braces, with the braces, as it would go through any text
without backslashes. -/
theorem unitEndFrom_brace {numeral : Text} (hnumeral : CodePoint.scalar '\\' ∉ numeral)
    (h : unitEndFrom [string start] offset
      (CodePoint.scalar '\x7b' :: (numeral ++ CodePoint.scalar '\x7d' :: rest)) = .ok last)
    (hlast : offset + numeral.length + 2 ≤ last) :
    unitEndFrom [string start] (offset + numeral.length + 2) rest = .ok last := by
  have htext : CodePoint.scalar '\\' ∉
      CodePoint.scalar '\x7b' :: (numeral ++ [CodePoint.scalar '\x7d']) := by
    simp [hnumeral]
  have hlength : offset + (CodePoint.scalar '\x7b' ::
      (numeral ++ [CodePoint.scalar '\x7d'])).length = offset + numeral.length + 2 := by
    simp [Nat.add_assoc]
  have happend : unitEndFrom [string start] offset
      (CodePoint.scalar '\x7b' :: (numeral ++ [CodePoint.scalar '\x7d']) ++ rest) = .ok last := by
    rw [List.cons_append, List.append_assoc]
    exact h
  rw [← hlength] at hlast ⊢
  exact unitEndFrom_string_append htext happend hlast

/-- **An interpolation ends at the bracket that closes it**, for the scanner that is in the literal
and for one that starts at its opening bracket. Behind it the scanner is in the literal again. -/
theorem exists_interpolation {final : CodePoint} {more : Nat}
    (h : unitEndFrom [bracket .round (offset + 1), string start] (offset + 2) (rest ++ [final]) =
      .ok more) :
    ∃ inner later, rest = inner ++ CodePoint.scalar ')' :: later ∧
      Text.unitEnd ('(' :: rest) = .ok (inner.length + 1) ∧
      unitEndFrom [string start] (offset + 1 + (inner.length + 2)) (later ++ [final]) =
        .ok more := by
  have hround : unitEndFrom ([] ++ bracket .round (offset + 1) :: [string start]) (offset + 2)
      (rest ++ [final]) = .ok more := h
  obtain ⟨inner, after, htext, hpasses, ⟨houter, _⟩ | ⟨_, hafter⟩⟩ := exists_closer hround
  · cases houter
  · -- The literal goes on after the bracket, at least to its closing quote.
    obtain ⟨later, ending, rfl⟩ : ∃ later ending, after = later ++ [ending] := by
      rcases List.eq_nil_or_concat after with rfl | ⟨later, ending, rfl⟩
      · cases hafter
      · exact ⟨later, ending, List.concat_eq_append⟩
    obtain ⟨hrest, hfinal⟩ : rest = inner ++ CodePoint.scalar ')' :: later ∧
      [final] = [ending] := by
      have hsame : rest ++ [final] = (inner ++ CodePoint.scalar ')' :: later) ++ [ending] := by
        rw [htext, List.append_assoc]
        rfl
      exact List.append_inj' hsame rfl
    cases hfinal
    refine ⟨inner, later, hrest, ?_, ?_⟩
    -- The inside was gone over in front of the whole literal, and now it stands by itself.
    · have hshort : Passes (CodePoint.scalar ')' :: later) [] (1 + (offset + 1)) inner [] := by
        rw [Nat.add_comm 1]
        exact hpasses.of_isPrefix (List.prefix_append (CodePoint.scalar ')' :: later) [final])
      have hhere : Passes (CodePoint.scalar ')' :: later) [] 1 inner [] :=
        hshort.earlier (offset + 1)
      have hgroup : IsGroup later [] 0 '(' inner ')' :=
        @isGroup_of_passes later 0 .round inner hhere
      rw [Text.unitEnd, hrest]
      exact hgroup.unitEndFrom.trans (congrArg Except.ok (by omega))
    · rw [show offset + 1 + (inner.length + 2) = offset + 2 + inner.length + 1 by omega]
      exact hafter

end Opening

namespace Escape

open Opening (string unitEndFrom)

variable {offset start last : Nat} {final : CodePoint} {rest : Text}

/-- What comes of an escape, seen from its backslash: a fault that stands there, or an escape after
which the scanner is in the literal as before. -/
def IsPlacedOrResumes (start offset last : Nat) (final : CodePoint) (rest : Text) : Prop :=
  (∃ cause, read rest = .error ⟨cause, 0⟩ ∧
      ∀ after, cause.StandsBetween [] (CodePoint.scalar '\\' :: (rest ++ after))) ∨
    ∃ escape taken more, read rest = .ok escape ∧ rest = taken ++ more ∧
      taken.length = escape.length ∧
      unitEndFrom [string start] (offset + 1 + taken.length) (more ++ [final]) = .ok last

/-- An escape with a number has a fault, or it ends at the first closing brace, and what stands
between the braces is the numeral of a code point. -/
theorem read_brace :
    read (CodePoint.scalar 'u' :: CodePoint.scalar '\x7b' :: rest) =
        .error ⟨.invalidUnicodeEscape, 0⟩ ∨
      ∃ numeral later named, rest = numeral ++ CodePoint.scalar '\x7d' :: later ∧
        HexNumeral.codePoint? numeral = some named ∧
        read (CodePoint.scalar 'u' :: CodePoint.scalar '\x7b' :: rest) =
          .ok ⟨[named], false, numeral.length + 3⟩ := by
  rw [read, if_neg (by decide), if_pos ⟨rfl, rfl⟩]
  simp only [List.drop_succ_cons, List.drop_zero, List.length_cons]
  split
  · rename_i named hnamed
    split
    · rename_i hclosed
      obtain ⟨c, later, hrest, hc⟩ := Text.exists_of_length_takeWhile_lt
        (Nat.lt_of_succ_lt_succ hclosed)
      obtain rfl : c = '\x7d' := by simpa using hc
      exact .inr ⟨_, later, named, hrest, hnamed, rfl⟩
    · exact .inl rfl
  · exact .inl rfl

theorem isPlacedOrResumes_round
    (h : unitEndFrom [.bracket .round (offset + 1), string start] (offset + 2) (rest ++ [final]) =
      .ok last) :
    IsPlacedOrResumes start offset last final (CodePoint.scalar '(' :: rest) := by
  obtain ⟨inner, later, hrest, hunit, hlater⟩ := Opening.exists_interpolation h
  refine .inr ⟨⟨'\\' :: (CodePoint.scalar '(' :: rest).take (inner.length + 2), true,
    inner.length + 2⟩, '(' :: (inner ++ [CodePoint.scalar ')']), later, ?_, ?_, by simp, ?_⟩
  · rw [read, if_pos rfl, hunit]
    rfl
  · rw [hrest, List.cons_append, List.append_assoc]
    rfl
  · simpa using hlater

theorem isPlacedOrResumes_brace
    (h : unitEndFrom [string start] (offset + 2) (CodePoint.scalar '\x7b' :: (rest ++ [final])) =
      .ok last) (hlast : offset + 3 + rest.length ≤ last) :
    IsPlacedOrResumes start offset last final
      (CodePoint.scalar 'u' :: CodePoint.scalar '\x7b' :: rest) := by
  rcases @read_brace rest with herror | ⟨numeral, later, named, rfl, hnamed, hread⟩
  · exact .inl ⟨_, herror, fun after => ⟨rest ++ after, rfl⟩⟩
  · have htaken : (CodePoint.scalar 'u' :: CodePoint.scalar '\x7b' ::
        (numeral ++ [CodePoint.scalar '\x7d'])).length = numeral.length + 3 := by
      simp
    refine .inr ⟨_, _, later, hread, ?_, htaken, ?_⟩
    · rw [List.cons_append, List.cons_append, List.append_assoc]
      rfl
    · rw [List.append_assoc] at h
      rw [List.length_append, List.length_cons] at hlast
      have hlater := Opening.unitEndFrom_brace (HexNumeral.not_mem_of_codePoint? hnamed) h
        (by omega)
      rw [htaken, show offset + 1 + (numeral.length + 3) = offset + 2 + numeral.length + 2 by omega]
      exact hlater

/-- **The scanner and the reader of escapes agree where an escape ends**, whatever stands behind the
backslash. -/
theorem isPlacedOrResumes
    (h : unitEndFrom [string start] offset (CodePoint.scalar '\\' :: (rest ++ [final])) =
      .ok (offset + 1 + rest.length)) :
    IsPlacedOrResumes start offset (offset + 1 + rest.length) final rest := by
  cases rest with
  | nil => exact absurd h Opening.unitEndFrom_backslash_singleton
  | cons c rest =>
    have hnext := Opening.unitEndFrom_backslash h
    by_cases hround : c = '('
    · subst hround
      rw [if_pos rfl] at hnext
      exact isPlacedOrResumes_round hnext
    rw [if_neg hround] at hnext
    by_cases hbrace : c = 'u' ∧ rest.head? = some (CodePoint.scalar '\x7b')
    · obtain ⟨rfl, hhead⟩ := hbrace
      obtain ⟨more, rfl⟩ := List.head?_eq_some_iff.1 hhead
      apply isPlacedOrResumes_brace hnext
      simp only [List.length_cons]
      omega
    · cases hsimple : simple? c with
      | some meant =>
        refine .inr ⟨⟨[meant], false, 1⟩, [c], rest, ?_, rfl, rfl, hnext⟩
        rw [read, if_neg hround, if_neg hbrace, hsimple]
      | none =>
        refine .inl ⟨.invalidEscape c, ?_, fun after => ⟨rest ++ after, rfl⟩⟩
        rw [read, if_neg hround, if_neg hbrace, hsimple]

end Escape

namespace StringContent

open Opening (string unitEndFrom)

/-- **Every fault of the content of a string literal is placed in it**, if the scanner finds the end
of the literal right after the content. By recursion on what is left of the content: each call
starts where the scanner has come to. -/
theorem isPlacedIn_read {start offset : Nat} {final : CodePoint} {inner : Text}
    (h : unitEndFrom [string start] offset (inner ++ [final]) = .ok (offset + inner.length))
    (after : Text) : (read inner).IsPlacedIn (inner ++ after) := by
  cases inner with
  | nil =>
    rw [read]
    exact Reading.isPlacedIn_ok
  | cons c rest =>
    rw [List.length_cons, Nat.add_comm rest.length 1, ← Nat.add_assoc] at h
    rw [read]
    by_cases hc : c = '\\'
    · subst hc
      rw [if_pos rfl]
      rcases Escape.isPlacedOrResumes h with ⟨cause, herror, hcause⟩ |
        ⟨escape, taken, more, hread, rfl, hlength, hmore⟩
      · rw [herror]
        intro fault hfault
        cases hfault
        exact ⟨[], _, rfl, rfl, hcause after⟩
      · rw [List.length_append, ← Nat.add_assoc] at hmore
        -- What follows the escape is read with offsets from there, and moved behind it.
        have hrest := (isPlacedIn_read hmore after).moved ('\\' :: taken)
        rw [List.length_cons, hlength] at hrest
        have hdrop : (taken ++ more).drop escape.length = more := by
          rw [← hlength, List.drop_left]
        rw [hread, List.cons_append, List.append_assoc]
        show Reading.IsPlacedIn _ (Reading.moved (escape.length + 1)
          (read ((taken ++ more).drop escape.length)) >>= _)
        rw [hdrop]
        exact hrest.bind fun _ _ => Reading.isPlacedIn_ok
    · rw [if_neg hc]
      rcases Opening.unitEndFrom_string hc h with hlast | hmore
      · omega
      · exact ((isPlacedIn_read hmore after).moved [c]).bind fun _ _ => Reading.isPlacedIn_ok
termination_by inner.length

end StringContent

end MemberSynthesis
