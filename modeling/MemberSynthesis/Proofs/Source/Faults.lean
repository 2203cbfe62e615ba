import MemberSynthesis.Proofs.Source.Blame
import MemberSynthesis.Proofs.Source.ListFaults
import MemberSynthesis.Source.Snippet

/-!
# Every fault stands where it is laid

The reader of source text goes forward: it finds the attribute, goes over its arguments, passes over
the attributes that follow and reads the declaration. Each part says how much of the text it has
used, which is never more than there is, so the next part is given what is left. **Whatever the
text, reading gives a snippet, or the directive is missing, or the fault stands where it is laid**
(`Snippet.read_eq_ok_or_isPlacedIn`).

What it means to stand somewhere is a property of the text before and behind an offset, one for each
cause (`ReadFault.IsPlacedIn`). Since no place in a text is right for a code point past its end,
none is ever asked for: the cause that stands for such a slip is part of the model, and this theorem
excludes it.

The parts are put together by one lemma about moving (`Reading.IsPlacedIn.moved`), because a fault
that is placed in what is left of a text is placed in the text when its offset is moved. The
directive that is missing is the only fault without a place of its own, and the only one whose
statement is about the whole text.
-/

set_option autoImplicit false

namespace MemberSynthesis

open Reading (IsPlacedIn isPlacedIn_ok)

/-! ## Attributes

The attributes behind the directive are passed over, each with its argument list. How far the reader
has come is at most the length of the text, at each of them and at the end. -/

namespace Attribute

theorem isPlacedIn_argumentListLength (text : Text) :
    (argumentListLength text).IsPlacedIn text := by
  unfold argumentListLength
  split
  · rename_i hround
    have hne : text ≠ [] := by
      intro hnil
      rw [hnil] at hround
      cases hround
    refine IsPlacedIn.bind ?_ fun _ _ => isPlacedIn_ok
    intro fault hfault
    exact ReadFault.isPlacedIn_of_unitEnd hne hfault
  · exact isPlacedIn_ok

theorem le_of_argumentListLength {text : Text} {taken : Nat}
    (h : argumentListLength text = .ok taken) : taken ≤ text.length := by
  unfold argumentListLength at h
  split at h
  · obtain ⟨close, hclose, htaken⟩ := Reading.bind_eq_ok.1 h
    cases htaken
    exact Text.lt_length_of_unitEnd hclose
  · cases h
    exact Nat.zero_le _

/-- What follows an attribute's name and the blanks after it is the rest of the text. A count of
code points becomes a text that was split off. -/
theorem drop_of_splitName? {text name rest : Text}
    (h : splitName? text.trimStart = some (name, rest)) :
    text.drop (text.length - rest.length + rest.leadingBlanks) = rest.trimStart := by
  have hsuffix : rest <:+ text := by
    refine List.IsSuffix.trans ?_ (List.dropWhile_suffix CodePoint.isBlank)
    rw [← Text.trimStart]
    cases htrim : text.trimStart with
    | nil =>
      rw [htrim] at h
      cases h
    | cons c more =>
      rw [htrim, splitName?] at h
      split at h
      · exact ⟨c :: name, congrArg (c :: ·) (Identifier.append_of_split? h).1⟩
      · cases h
  rw [← List.drop_drop, ← List.suffix_iff_eq_drop.1 hsuffix, Text.drop_leadingBlanks]

theorem skip_of_splitName?_none {text : Text} (h : splitName? text.trimStart = none) :
    skip text = .ok text.leadingBlanks := by
  rw [skip]
  split
  · rfl
  · rename_i hname
    rw [h] at hname
    cases hname

theorem skip_of_splitName? {text name rest : Text}
    (h : splitName? text.trimStart = some (name, rest)) :
    skip text = (do
      let gap := text.length - rest.length + rest.leadingBlanks
      let taken ← Reading.moved gap (argumentListLength rest.trimStart)
      let more ← Reading.moved (gap + taken) (skip (rest.trimStart.drop taken))
      return gap + taken + more) := by
  rw [skip]
  split
  · rename_i hname
    rw [h] at hname
    cases hname
  · rename_i hname
    rw [h] at hname
    cases hname
    rfl

/-- **Passing over attributes stays within the text**, and so do its faults. By recursion on what is
left behind an attribute. -/
theorem isPlacedIn_skip (text : Text) :
    (skip text).IsPlacedIn text ∧ ∀ skipped, skip text = .ok skipped → skipped ≤ text.length := by
  cases hname : splitName? text.trimStart with
  | none =>
    rw [skip_of_splitName?_none hname]
    refine ⟨isPlacedIn_ok, ?_⟩
    intro skipped hskipped
    cases hskipped
    exact text.leadingBlanks_le
  | some found =>
    obtain ⟨name, rest⟩ := found
    have hshorter : rest.trimStart.length < text.length :=
      Nat.lt_of_le_of_lt (Text.length_trimStart_le rest)
        (Nat.lt_of_lt_of_le (length_of_splitName? hname) (Text.length_trimStart_le text))
    have hdrop := drop_of_splitName? hname
    rw [skip_of_splitName? hname]
    have hgap : text.length - rest.length + rest.leadingBlanks ≤ text.length := by
      have hblanks := rest.leadingBlanks_le
      have hrest := length_of_splitName? hname
      have htext := Text.length_trimStart_le text
      omega
    generalize text.length - rest.length + rest.leadingBlanks = gap at hgap hdrop
    -- The text after the name is the text without its first `gap` code points.
    have harguments := isPlacedIn_argumentListLength rest.trimStart
    rw [← hdrop] at harguments hshorter ⊢
    have hless : ∀ taken, ((text.drop gap).drop taken).length < text.length := by
      intro taken
      rw [List.length_drop]
      omega
    constructor
    · apply (harguments.moved_drop hgap).bind
      intro taken htaken
      have hle := le_of_argumentListLength (Reading.moved_eq_ok.1 htaken)
      have hmore := (isPlacedIn_skip ((text.drop gap).drop taken)).1
      rw [List.length_drop] at hle
      rw [List.drop_drop] at hmore ⊢
      exact (hmore.moved_drop (by omega)).bind fun _ _ => isPlacedIn_ok
    · intro skipped h
      obtain ⟨taken, htaken, hskipped⟩ := Reading.bind_eq_ok.1 h
      obtain ⟨more, hmore, hsum⟩ := Reading.bind_eq_ok.1 hskipped
      cases hsum
      have hle := le_of_argumentListLength (Reading.moved_eq_ok.1 htaken)
      have hrest := (isPlacedIn_skip ((text.drop gap).drop taken)).2 more
        (Reading.moved_eq_ok.1 hmore)
      rw [List.drop_drop, List.length_drop] at hrest
      rw [List.length_drop] at hle
      omega
termination_by text.length
decreasing_by
  all_goals exact hless taken

/-! ## The mention of the attribute -/

theorem findMention?_eq_none_iff {name text : Text} :
    findMention? name text = none ↔ ∀ offset, isMention name (text.drop offset) = false := by
  have hnil : isMention name [] = false := rfl
  induction text with
  | nil => simp [findMention?, hnil]
  | cons c rest ih =>
    rw [findMention?]
    split
    · rename_i hmention
      constructor
      · intro h
        cases h
      · intro h
        have hhere := h 0
        rw [List.drop_zero, hmention] at hhere
        cases hhere
    · rename_i hmention
      refine Option.map_eq_none_iff.trans (ih.trans ?_)
      constructor
      · intro h offset
        cases offset with
        | zero => simpa using hmention
        | succ offset => exact h offset
      · intro h offset
        exact h (offset + 1)

/-- The mention that is found stands in the text, the sign and the name with it. -/
theorem le_of_findMention? {name text : Text} {offset : Nat}
    (h : findMention? name text = some offset) : offset + 1 + name.length ≤ text.length := by
  induction text generalizing offset with
  | nil => cases h
  | cons c rest ih =>
    rw [findMention?] at h
    split at h
    · rename_i hmention
      cases h
      rw [isMention, Bool.and_eq_true] at hmention
      have hprefix := (List.isPrefixOf_iff_prefix.1 hmention.1).length_le
      rw [List.length_cons] at hprefix
      omega
    · obtain ⟨found, hfound, rfl⟩ := Option.map_eq_some_iff.1 h
      have hrest := ih hfound
      rw [List.length_cons]
      omega

end Attribute

namespace Snippet

/-- The argument list stays within the text, and so do its faults. Without a bracket behind the name
there is no list, and nothing is used. -/
theorem isPlacedIn_readArguments (text : Text) :
    (readArguments text).IsPlacedIn text ∧
      ∀ arguments used, readArguments text = .ok (arguments, used) → used ≤ text.length := by
  unfold readArguments
  split
  · rename_i hround
    obtain ⟨rest, htrim⟩ := List.head?_eq_some_iff.1 hround
    have hdrop := text.drop_leadingBlanks
    have hgap := text.leadingBlanks_le
    rw [htrim] at hdrop
    -- Only the number of the blanks before the bracket matters from here on.
    generalize text.leadingBlanks = gap at hdrop hgap
    rw [htrim]
    constructor
    · apply IsPlacedIn.bind
      · apply IsPlacedIn.moved_drop _ hgap
        intro fault hfault
        rw [hdrop]
        exact ReadFault.isPlacedIn_of_unitEnd (List.cons_ne_nil _ _) hfault
      · intro close hclose
        obtain ⟨inside, more, rfl, hinside, rfl⟩ :=
          @Text.exists_closer_of_unitEnd .round _ _ (Reading.moved_eq_ok.1 hclose)
        -- The list that is cut out is what stands in the brackets, and its faults are moved behind
        -- the first one.
        have hcut : (text.drop (gap + 1)).take (inside.length + 1 - 1) = inside := by
          rw [← List.drop_drop, hdrop]
          simp
        have hplaced := @Argument.isPlacedIn_readAll inside more hinside
        rw [show CodePoint.scalar '(' :: (inside ++ CodePoint.scalar ')' :: more) =
          text.drop gap from
          hdrop.symm] at hplaced
        have hmoved := hplaced.moved_drop hgap
        rw [Reading.moved_moved] at hmoved
        rw [hcut]
        exact hmoved.bind fun _ _ => isPlacedIn_ok
    · intro arguments used h
      obtain ⟨close, hclose, hrest⟩ := Reading.bind_eq_ok.1 h
      obtain ⟨_, _, hused⟩ := Reading.bind_eq_ok.1 hrest
      cases hused
      have hlast := Text.lt_length_of_unitEnd (Reading.moved_eq_ok.1 hclose)
      rw [← hdrop, List.length_drop] at hlast
      omega
  · refine ⟨isPlacedIn_ok, ?_⟩
    intro arguments used h
    cases h
    exact Nat.zero_le _

theorem isPlacedIn_readAfter (name text : Text) : (readAfter name text).IsPlacedIn text := by
  obtain ⟨harguments, hle⟩ := isPlacedIn_readArguments text
  apply harguments.bind
  rintro ⟨arguments, used⟩ hread
  have hused := hle arguments used hread
  obtain ⟨hplaced, hskip⟩ := Attribute.isPlacedIn_skip (text.drop used)
  apply (hplaced.moved_drop hused).bind
  intro skipped hskipped
  have hlength := hskip skipped (Reading.moved_eq_ok.1 hskipped)
  rw [List.length_drop] at hlength
  cases hhead : Declaration.ofHead? (text.drop (used + skipped)) with
  | none =>
    intro fault hfault
    cases hfault
    exact ⟨text.take (used + skipped), text.drop (used + skipped),
      (List.take_append_drop _ text).symm, List.length_take_of_le (by omega), hhead⟩
  | some declaration => exact isPlacedIn_ok

/-- **Reading a source text gives a snippet or a fault that stands where it is laid**: the directive
is missing from the whole text, or the fault's offset lies within the text and shows what its cause
says. -/
theorem read_eq_ok_or_isPlacedIn (name text : Text) :
    (∃ snippet, read name text = .ok snippet) ∨
      (read name text = .error ⟨.noDirective name, 0⟩ ∧
        ∀ offset, Attribute.isMention name (text.drop offset) = false) ∨
      ∃ fault, read name text = .error fault ∧ fault.IsPlacedIn text := by
  cases hmention : Attribute.findMention? name text with
  | none =>
    refine .inr (.inl ⟨?_, Attribute.findMention?_eq_none_iff.1 hmention⟩)
    rw [read, hmention]
  | some offset =>
    have hread : read name text = Reading.moved (offset + 1 + name.length)
        (readAfter name (text.drop (offset + 1 + name.length))) := by
      rw [read, hmention]
    have hplaced := (isPlacedIn_readAfter name _).moved_drop (Attribute.le_of_findMention? hmention)
    rw [← hread] at hplaced
    cases hresult : read name text with
    | ok snippet => exact .inl ⟨snippet, rfl⟩
    | error fault => exact .inr (.inr ⟨fault, rfl, hplaced fault hresult⟩)

-- The second element of the array is blank, and the comma after it is blamed.
example : read "Mark" "@Mark(names: [\"a\", , \"b\"]) class C" = .error ⟨.noExpression, 19⟩ := by
  decide +kernel

end Snippet

end MemberSynthesis
