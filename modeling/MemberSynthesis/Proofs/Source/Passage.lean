import MemberSynthesis.Proofs.Source.Locality

/-!
# Attributes that are passed over

Between the directive and the declaration, attributes are passed over one after the other: blanks,
an at sign and a name, an argument list if a bracket follows the name, and so on until no attribute
stands there. **What is passed over is a grammar** (`Attribute.IsPassage`), and both directions are
proved. A passage is passed over whatever declaration follows it (`skip_of_isPassage`), and what was
passed over before a declaration is a passage (`exists_isPassage_of_skip`). From there on nobody
asks how the reader went: attributes can be put in front of others
(`Attribute.IsPassage.writtenAll_append`) because the grammar says so.

## Why a passage is not just a list of attributes

The blanks are the difficulty. Those in front of an attribute, those between its name and its
arguments, and those behind it are the same blanks to a reader that trims before each step, and a
text can be cut into attributes in several ways: the blanks between two of them belong to either.
The grammar lets blanks stand in front of every attribute and at the end, so that blanks put before
a passage are again part of one (`IsPassage.blanks_append`), and `WrittenAttribute`, which is what a
user adds to a text, has its blanks behind it.

A declaration starts with a word, and that is the hypothesis on the code point behind a passage. A
word is no bracket, so the last attribute does not take it for its arguments; but it would go on
with the name of the attribute, and so arguments or a blank must separate them.
-/

set_option autoImplicit false

namespace MemberSynthesis

/-! ## Attributes as they are written

What a user may write between the directive and the declaration, each part with the proof that it is
well-formed: an argument list is balanced, a name is an identifier, and blanks are blank. -/

/-- An argument list as it is written: blanks before its opening bracket, and what stands between
its brackets. That is any balanced text, as nobody reads it: a list that is passed over need not
hold arguments. -/
structure ArgumentList where
  gap : Text
  inside : Text
  blank : ∀ c ∈ gap, c.isBlank
  balanced : inside.IsBalanced

namespace ArgumentList

/-- The list from the blanks before it up to its closing bracket. -/
def written (list : ArgumentList) : Text :=
  list.gap ++ CodePoint.scalar '(' :: (list.inside ++ [CodePoint.scalar ')'])

/-- The text of a list that may be missing, which is no text at all then. -/
def writtenOption (list : Option ArgumentList) : Text := list.elim [] written

/-- A list in front of other text, with that text where the reader of brackets expects it. -/
theorem written_append (list : ArgumentList) (rest : Text) :
    list.written ++ rest =
      list.gap ++ CodePoint.scalar '(' :: (list.inside ++ CodePoint.scalar ')' :: rest) := by
  simp [written]

theorem length_written (list : ArgumentList) :
    list.written.length = list.gap.length + list.inside.length + 2 := by
  simp only [written, List.length_append, List.length_cons, List.length_nil]
  omega

/-- A name ends before an argument list, be it that blanks come first or the bracket does. Where
there is no list, the name ends if it does so before what follows. -/
theorem endsWord_writtenOption {list : Option ArgumentList} {rest : Text}
    (h : list = none → rest.EndsWord) : Text.EndsWord (writtenOption list ++ rest) := by
  cases list with
  | none => exact h rfl
  | some list =>
    rw [writtenOption, Option.elim_some, written_append]
    exact (Text.endsWord_of_blank (Text.head?_all_isBlank list.blank)).append
      (.inr (Text.endsWord_cons (by decide)))

end ArgumentList

/-- An attribute as it is written, with blanks behind it. There is at least one, so that what
follows is no part of its name. -/
structure WrittenAttribute where
  name : Text
  list : Option ArgumentList
  behind : Text
  identifier : name.isIdentifier
  separated : behind ≠ []
  blank : ∀ c ∈ behind, c.isBlank

namespace WrittenAttribute

/-- The attribute up to the blanks behind it, these included. -/
def written (passed : WrittenAttribute) : Text :=
  CodePoint.scalar '@' :: (passed.name ++ (ArgumentList.writtenOption passed.list ++ passed.behind))

/-- Attributes one after the other. -/
def writtenAll (attributes : List WrittenAttribute) : Text := attributes.flatMap written

end WrittenAttribute

namespace Attribute

variable {name text rest gap inner : Text} {skipped : Nat}

/-! ## Passing over one attribute

One exact equation for each form of an attribute, with what is skipped behind it as a hypothesis.
All three come from the unfolding of the reader (`skip_eq_ok_iff`), which says what one step does
and nothing about how far the run goes. -/

/-- The name behind an at sign is cut off where it ends. -/
theorem splitName?_mark (hname : name.isIdentifier) (hrest : rest.EndsWord) :
    splitName? (CodePoint.scalar '@' :: (name ++ rest)) = some (name, rest) := by
  rw [splitName?, if_pos rfl]
  exact Identifier.split?_eq_some_iff.2 ⟨hname, hrest, rfl⟩

/-- Blanks before the attributes are passed over first, and count. -/
theorem skip_blanks {blanks : Text} (hblanks : ∀ c ∈ blanks, c.isBlank)
    (h : skip text = .ok skipped) :
    skip (blanks ++ text) = .ok (blanks.length + skipped) := by
  have htrim := @Text.trimStart_append blanks text hblanks
  refine skip_eq_ok_iff.2 ?_
  rw [htrim]
  rcases skip_eq_ok_iff.1 h with ⟨hnone, rfl⟩ |
    ⟨passed, rest, taken, more, hsome, htaken, hmore, rfl⟩
  · exact .inl ⟨hnone, (Text.leadingBlanks_append hblanks).symm⟩
  · refine .inr ⟨passed, rest, taken, more, hsome, htaken, hmore, ?_⟩
    have hlength := length_of_splitName? hsome
    have htext := Text.length_trimStart_le text
    rw [List.length_append]
    omega

/-- The other way round: what is passed over in a text is its blanks, and what is passed over behind
these. -/
theorem skip_trimStart (h : skip text = .ok skipped) :
    ∃ n, skip text.trimStart = .ok n ∧ skipped = text.leadingBlanks + n := by
  have htrim : text.trimStart.trimStart = text.trimStart := List.dropWhile_idempotent _ _
  have hblanks : text.trimStart.leadingBlanks = 0 := by
    have hdrop := text.trimStart.drop_leadingBlanks
    have hle := text.trimStart.leadingBlanks_le
    rw [htrim] at hdrop
    have hlength := congrArg List.length hdrop
    rw [List.length_drop] at hlength
    omega
  rcases skip_eq_ok_iff.1 h with ⟨hnone, rfl⟩ |
    ⟨passed, rest, taken, more, hsome, htaken, hmore, rfl⟩
  · exact ⟨0, skip_eq_ok_iff.2 (.inl ⟨by rwa [htrim], hblanks.symm⟩), rfl⟩
  · refine ⟨_, skip_eq_ok_iff.2
      (.inr ⟨passed, rest, taken, more, by rwa [htrim], htaken, hmore, rfl⟩), ?_⟩
    have hlength := length_of_splitName? hsome
    have hsum := congrArg List.length (text.takeWhile_append_trimStart)
    rw [List.length_append, ← Text.leadingBlanks] at hsum
    omega

/-- An attribute without arguments is passed over with its name, unless a bracket follows it, be it
behind blanks: that bracket would start its arguments. -/
theorem skip_bare (hname : name.isIdentifier) (hrest : rest.EndsWord)
    (hround : rest.trimStart.head? ≠ some (CodePoint.scalar '(')) (h : skip rest = .ok skipped) :
    skip (CodePoint.scalar '@' :: (name ++ rest)) = .ok (1 + name.length + skipped) := by
  obtain ⟨more, hmore, rfl⟩ := skip_trimStart h
  refine skip_eq_ok_iff.2 (.inr ⟨name, rest, 0, more, ?_, ?_, hmore, ?_⟩)
  · rw [Text.trimStart_cons_of_not_isBlank (by decide), splitName?_mark hname hrest]
  · rw [argumentListLength, if_neg hround]
    rfl
  · rw [List.length_cons, List.length_append]
    omega

/-- An argument list is passed over with its attribute, from the blanks before the bracket to the
closing bracket. Where that stands is known because the inside is balanced. -/
theorem skip_listed (hname : name.isIdentifier) (hgap : ∀ c ∈ gap, c.isBlank)
    (hinner : inner.IsBalanced) (h : skip rest = .ok skipped) :
    skip (CodePoint.scalar '@' ::
      (name ++ (gap ++ CodePoint.scalar '(' :: (inner ++ CodePoint.scalar ')' :: rest)))) =
      .ok (1 + name.length + (gap.length + inner.length + 2) + skipped) := by
  -- The name ends, its list is found behind the blanks, and it is as long as it is written.
  have hends :
      Text.EndsWord (gap ++ CodePoint.scalar '(' :: (inner ++ CodePoint.scalar ')' :: rest)) :=
    (Text.endsWord_of_blank (Text.head?_all_isBlank hgap)).append
      (.inr (Text.endsWord_cons (by decide)))
  have hstart : (gap ++ CodePoint.scalar '(' :: (inner ++ CodePoint.scalar ')' :: rest)).trimStart =
      CodePoint.scalar '(' :: (inner ++ CodePoint.scalar ')' :: rest) := by
    rw [Text.trimStart_append hgap, Text.trimStart_cons_of_not_isBlank (by decide)]
  have hblanks :
      (gap ++ CodePoint.scalar '(' :: (inner ++ CodePoint.scalar ')' :: rest)).leadingBlanks =
        gap.length := by
    rw [Text.leadingBlanks_append hgap]
    rfl
  refine skip_eq_ok_iff.2 (.inr ⟨name, _, inner.length + 2, skipped,
    (by rw [Text.trimStart_cons_of_not_isBlank (by decide), splitName?_mark hname hends]),
    ?_, ?_, ?_⟩)
  · have hunit : Text.unitEnd (CodePoint.scalar '(' :: (inner ++ CodePoint.scalar ')' :: rest)) =
        .ok (inner.length + 1) :=
      (Grammar.isGroup_of_isBalanced .round hinner rest 0).unitEndFrom.trans
        (congrArg Except.ok (by omega))
    rw [hstart, argumentListLength, if_pos List.head?_cons, hunit]
    rfl
  · have hdrop : (CodePoint.scalar '(' :: (inner ++ CodePoint.scalar ')' :: rest)).drop
        (inner.length + 2) = rest := by
      rw [List.drop_succ_cons, List.append_cons]
      exact List.drop_left' (by simp)
    rw [hstart, hdrop, h]
  · rw [hblanks, List.length_cons, List.length_append]
    omega

/-! ## What is passed over

The grammar, its closure under blanks, and its agreement with the reader. Both directions are
inductions that pair the constructors of the grammar with the steps of the reader, blanks with the
end of the run, and the other two with an attribute that does or does not have arguments. -/

/-- Blanks and attributes in turn. An attribute without an argument list must not end the text,
since the word behind it would go on with its name. -/
inductive IsPassage : Text → Prop
  | blank {blanks : Text} : (∀ c ∈ blanks, c.isBlank) → IsPassage blanks
  | bare {blanks name more : Text} : (∀ c ∈ blanks, c.isBlank) → name.isIdentifier → more ≠ [] →
    IsPassage more → IsPassage (blanks ++ CodePoint.scalar '@' :: (name ++ more))
  | listed {blanks name more : Text} (list : ArgumentList) : (∀ c ∈ blanks, c.isBlank) →
    name.isIdentifier → IsPassage more →
    IsPassage (blanks ++ CodePoint.scalar '@' :: (name ++ (list.written ++ more)))

variable {passage more : Text} {c : CodePoint}

/-- Behind the blanks it starts with, a passage is at its end or at an at sign. -/
theorem IsPassage.trimStart_eq (h : IsPassage passage) :
    passage.trimStart = [] ∨ ∃ more, passage.trimStart = CodePoint.scalar '@' :: more := by
  cases h with
  | blank hblanks => exact .inl (Text.trimStart_eq_nil_iff.2 hblanks)
  | bare hblanks | listed _ hblanks =>
    exact .inr ⟨_, by rw [Text.trimStart_append hblanks, Text.trimStart_cons_of_not_isBlank
      (by decide)]⟩

/-- Before a declaration, no bracket follows the blanks that a passage starts with. So an attribute
in front of a passage is never given arguments that it does not have. -/
theorem IsPassage.head?_trimStart_ne (h : IsPassage passage) (hc : c.isWord) (rest : Text) :
    (passage ++ c :: rest).trimStart.head? ≠ some (CodePoint.scalar '(') := by
  rcases h.trimStart_eq with hnil | ⟨more, hmore⟩
  · rw [Text.trimStart_append (Text.trimStart_eq_nil_iff.1 hnil),
      Text.trimStart_cons_of_not_isBlank (CodePoint.isBlank_eq_false_of_isWord hc), List.head?_cons]
    rintro ⟨⟩
    exact absurd hc (by decide)
  · rw [Text.trimStart_append_of_ne_nil (hmore ▸ List.cons_ne_nil _ _), hmore, List.cons_append,
      List.head?_cons]
    exact fun hround => absurd (Option.some.inj hround) (by decide)

/-- A word ends where a passage follows it, which starts with a blank or an at sign if it is not
empty. -/
theorem IsPassage.endsWord (h : IsPassage passage) : passage.EndsWord := by
  cases h with
  | blank hblanks => exact Text.endsWord_of_blank (Text.head?_all_isBlank hblanks)
  | @bare blanks _ _ hblanks | @listed blanks _ _ _ hblanks =>
    cases blanks with
    | nil => exact Text.endsWord_cons (by decide)
    | cons c blanks =>
      exact Text.endsWord_cons (CodePoint.isWord_eq_false_of_isBlank (hblanks c List.mem_cons_self))

/-- Blanks can be put in front of a passage: they join those that it starts with. -/
theorem IsPassage.blanks_append {blanks : Text} (h : IsPassage passage)
    (hblanks : ∀ c ∈ blanks, c.isBlank) :
    IsPassage (blanks ++ passage) := by
  have hall : ∀ {more : Text}, (∀ c ∈ more, c.isBlank) → ∀ c ∈ blanks ++ more, c.isBlank :=
    fun hmore => List.forall_mem_append.2 ⟨hblanks, hmore⟩
  cases h with
  | blank hmore => exact .blank (hall hmore)
  | bare hmore hname hne hrest =>
    rw [← List.append_assoc]
    exact .bare (hall hmore) hname hne hrest
  | listed list hmore hname hrest =>
    rw [← List.append_assoc]
    exact .listed list (hall hmore) hname hrest

/-- **A passage is passed over**, whatever declaration follows it: exactly its own code points are
skipped, those behind the last attribute included. -/
theorem skip_of_isPassage (h : IsPassage passage) (hc : c.isWord) (rest : Text) :
    skip (passage ++ c :: rest) = .ok passage.length := by
  induction h with
  | @blank blanks hblanks =>
    have hnone : splitName? (blanks ++ c :: rest).trimStart = none := by
      rw [Text.trimStart_append hblanks,
        Text.trimStart_cons_of_not_isBlank (CodePoint.isBlank_eq_false_of_isWord hc),
          splitName?, if_neg]
      rintro rfl
      exact absurd hc (by decide)
    refine skip_eq_ok_iff.2 (.inl ⟨hnone, ?_⟩)
    rw [Text.leadingBlanks_append hblanks, Text.leadingBlanks,
      List.takeWhile_cons_of_neg (by simp [CodePoint.isBlank_eq_false_of_isWord hc])]
    rfl
  | @bare blanks name more hblanks hname hne hmore ih =>
    have hskip := skip_bare hname (hmore.endsWord.append (.inl hne))
      (hmore.head?_trimStart_ne hc rest) ih
    rw [List.append_assoc, List.cons_append, List.append_assoc, skip_blanks hblanks hskip]
    simp only [List.length_append, List.length_cons]
    exact congrArg Except.ok (by omega)
  | @listed blanks name more list hblanks hname hmore ih =>
    have hskip := skip_listed hname list.blank list.balanced ih
    rw [List.append_assoc, List.cons_append, List.append_assoc, List.append_assoc,
      list.written_append, skip_blanks hblanks hskip]
    simp only [List.length_append, List.length_cons, list.length_written]
    exact congrArg Except.ok (by omega)

theorem exists_eq_append_trimStart (text : Text) :
    ∃ blanks, (∀ d ∈ blanks, CodePoint.isBlank d) ∧ text = blanks ++ text.trimStart :=
  ⟨text.takeWhile CodePoint.isBlank, fun _ => Text.isBlank_of_mem_takeWhile,
    text.takeWhile_append_trimStart.symm⟩

/-- If a name is cut off, an identifier stands behind blanks and an at sign, and it ends where the
rest starts. -/
theorem exists_of_splitName? (h : splitName? text.trimStart = some (name, rest)) :
    name.isIdentifier ∧ rest.EndsWord ∧ ∃ blanks, (∀ d ∈ blanks, CodePoint.isBlank d) ∧
      text = blanks ++ CodePoint.scalar '@' :: (name ++ rest) := by
  obtain ⟨blanks, hblanks, htext⟩ := exists_eq_append_trimStart text
  cases hstart : text.trimStart with
  | nil =>
    rw [hstart] at h
    cases h
  | cons c more =>
    rw [hstart, splitName?] at h
    split at h
    · rename_i hc
      obtain ⟨hname, hrest, rfl⟩ := Identifier.split?_eq_some_iff.1 h
      rw [hstart, hc] at htext
      exact ⟨hname, hrest, blanks, hblanks, htext⟩
    · cases h

/-- **What is passed over before a declaration is a passage.** The induction is over the run of the
reader. At an attribute, the passage behind it is known, and the blanks that precede the passage are
those the reader has trimmed. -/
theorem exists_isPassage_of_skip (h : skip text = .ok skipped)
    (hdrop : text.drop skipped = c :: more)
    (hc : c.isWord) : ∃ passage, text = passage ++ c :: more ∧ IsPassage passage := by
  revert hdrop
  refine skip_induction (motive := fun text skipped => text.drop skipped = c :: more →
    ∃ passage, text = passage ++ c :: more ∧ IsPassage passage) ?_ ?_ h
  · intro text _ hdrop
    rw [Text.drop_leadingBlanks] at hdrop
    refine ⟨text.takeWhile CodePoint.isBlank, ?_, .blank fun d => Text.isBlank_of_mem_takeWhile⟩
    rw [← hdrop, Text.takeWhile_append_trimStart]
  · intro text passed rest taken later hsome htaken ih hdrop
    rw [drop_passed hsome] at hdrop
    obtain ⟨passage, hbehind, hpassage⟩ := ih hdrop
    obtain ⟨hname, hrest, blanks, hblanks, rfl⟩ := exists_of_splitName? hsome
    obtain ⟨gap, hgap, hrestGap⟩ := exists_eq_append_trimStart rest
    rw [argumentListLength] at htaken
    split at htaken
    · -- The argument list ends where the attributes behind it start.
      rename_i hround
      obtain ⟨close, hclose, hsum⟩ := Reading.bind_eq_ok.1 htaken
      cases hsum
      obtain ⟨opened, hopened⟩ := List.head?_eq_some_iff.1 hround
      rw [hopened] at hclose hbehind hrestGap
      obtain ⟨inner, after, rfl, hinner, rfl⟩ := @Text.exists_closer_of_unitEnd .round _ _ hclose
      have hafter : after = passage ++ c :: more := by
        rw [← hbehind, List.drop_succ_cons, List.append_cons]
        exact (List.drop_left' (by simp)).symm
      refine ⟨_, ?_, .listed ⟨gap, inner, hgap, hinner⟩ hblanks hname hpassage⟩
      rw [hrestGap, hafter, List.append_assoc, List.cons_append, List.append_assoc,
        List.append_assoc, ArgumentList.written_append]
      rfl
    -- Without arguments: were nothing left before the declaration, its word would go on with the
    -- name.
    · cases htaken
      rw [List.drop_zero] at hbehind
      rw [hbehind] at hrestGap
      have hne : gap ++ passage ≠ [] := by
        intro hnil
        rw [hrestGap, ← List.append_assoc, hnil] at hrest
        have hword : c.isWord = false := hrest
        rw [hc] at hword
        cases hword
      refine ⟨_, ?_, .bare hblanks hname hne (hpassage.blanks_append hgap)⟩
      rw [hrestGap, List.append_assoc, List.cons_append, List.append_assoc, List.append_assoc]

/-- **Attributes can be put in front of others**, and what was a passage remains one. Each brings
the blanks that separate it from what follows. -/
theorem IsPassage.writtenAll_append (h : IsPassage passage) (attributes : List WrittenAttribute) :
    IsPassage (WrittenAttribute.writtenAll attributes ++ passage) := by
  induction attributes with
  | nil => exact h
  | cons passed attributes ih =>
    have hmore := ih.blanks_append passed.blank
    rw [WrittenAttribute.writtenAll, List.flatMap_cons, WrittenAttribute.written]
    cases hlist : passed.list with
    | none =>
      have hne : passed.behind ++ (WrittenAttribute.writtenAll attributes ++ passage) ≠ [] :=
        List.append_ne_nil_of_left_ne_nil passed.separated _
      have hbare := @IsPassage.bare [] _ _ (by simp) passed.identifier hne hmore
      simpa [ArgumentList.writtenOption, WrittenAttribute.writtenAll] using hbare
    | some list =>
      have hlisted := @IsPassage.listed [] _ _ list (by simp) passed.identifier hmore
      simpa [ArgumentList.writtenOption, WrittenAttribute.writtenAll] using hlisted

end Attribute

end MemberSynthesis
