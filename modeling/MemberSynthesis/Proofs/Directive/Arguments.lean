import Mathlib.Data.List.Perm.Subperm
import MemberSynthesis.Directive.Interpretation
import MemberSynthesis.Proofs.Outcome

/-!
# The labelled arguments of a directive

`collect` goes through the arguments and stops at the first without a label of its own. **It
succeeds just when every argument carries a label and no label comes twice** (`collect_eq_ok_iff`);
if it fails, the first argument with a `LabelMistake` decides (`collect_eq_error_iff`). There are
three labels, so three arguments that pass carry one each, in some order (`exists_perm_of_nodup`),
and no lookup that follows can fail.

An argument can go wrong with its label in three ways: it has none, the label is none of the three,
or an earlier argument has it already. An argument has one of these mistakes or a label of its own
(`labelMistake_or_labelled`), and never both, since the two lead `collect` to different outcomes; so
the first mistake is well defined, and nothing behind it is looked at.

The arguments are compared with a list of labels and expressions, of which `labelled` is the written
form. Both theorems are stated with what was `found` before, because that is what the recursion
carries along; at the start nothing was.
-/

set_option autoImplicit false

namespace MemberSynthesis

namespace Directive

/-- The argument that carries a label, in the word of that label. -/
def labelled (entry : ArgumentLabel × Expression) : Argument := ⟨some entry.1.word, entry.2⟩

theorem word_inj {label other : ArgumentLabel} : label.word = other.word ↔ label = other :=
  ⟨Vocabulary.word_injective (α := ArgumentLabel), congrArg _⟩

theorem label_eq_of_labelled {entry : ArgumentLabel × Expression} {label : ArgumentLabel}
    (h : (labelled entry).label = some label.word) : entry.1 = label :=
  word_inj.1 (Option.some.inj h)

theorem labelled_injective : Function.Injective labelled := by
  rintro ⟨label, e⟩ ⟨label', e'⟩ h
  obtain rfl : label = label' := label_eq_of_labelled (congrArg Argument.label h)
  obtain rfl : e = e' := congrArg Argument.expression h
  rfl

/-! ## One argument

What `collect` does with one argument whose label is new, and that an argument on which it goes on
is of this kind. -/

theorem word_ne_nil (label : ArgumentLabel) : label.word ≠ [] := by
  cases label <;> decide

theorem collect_labelled {directive : Text} {position : Nat}
    {found : List (ArgumentLabel × Expression)} {entry : ArgumentLabel × Expression}
    {more : List Argument} (hnew : entry.1 ∉ found.map Prod.fst) :
    collect directive position found (labelled entry :: more) =
      collect directive (position + 1) (found ++ [entry]) more := by
  obtain ⟨label, e⟩ := entry
  have hword : Vocabulary.ofWord? label.word = some label :=
    Vocabulary.ofWord?_eq_some_iff.2 rfl
  cases hlabel : label.word with
  | nil => exact absurd hlabel (word_ne_nil label)
  | cons c rest =>
    rw [hlabel] at hword
    simp only [collect, labelled, hlabel, hword]
    rw [if_neg hnew]

/-- An argument that passes carries a label, and no earlier one carries the same. What the arguments
behind it are does not matter to that. -/
theorem labelled_of_collect {directive : Text} {position : Nat}
    {found result : List (ArgumentLabel × Expression)} {argument : Argument}
    {more : List Argument}
    (h : collect directive position found (argument :: more) = .ok result) :
    ∃ entry, argument = labelled entry ∧ entry.1 ∉ found.map Prod.fst := by
  obtain ⟨label?, e⟩ := argument
  simp only [collect] at h
  split at h
  · cases h
  · cases h
  · rename_i c word
    split at h
    · cases h
    · rename_i label hword
      split at h
      · cases h
      · rename_i hnew
        have : label.word = c :: word := Vocabulary.ofWord?_eq_some_iff.1 hword
        exact ⟨(label, e), by rw [labelled, this], hnew⟩

/-! ## All arguments -/

/-- **Collecting succeeds just when every argument carries a label of its own.** What comes out is
what was found before and one entry for each argument, in their order. -/
theorem collect_eq_ok_iff {directive : Text} {arguments : List Argument} :
    ∀ {position : Nat} {found result : List (ArgumentLabel × Expression)},
      (found.map Prod.fst).Nodup →
      (collect directive position found arguments = .ok result ↔
        ∃ entries, arguments = entries.map labelled ∧ result = found ++ entries ∧
          (result.map Prod.fst).Nodup) := by
  induction arguments with
  | nil =>
    intro position found result hfound
    constructor
    · intro h
      cases h
      exact ⟨[], rfl, by simp, hfound⟩
    · rintro ⟨entries, hentries, rfl, -⟩
      rw [List.map_eq_nil_iff.1 hentries.symm]
      simp [collect]
  | cons argument more ih =>
    intro position found result hfound
    -- What is found with the next entry still has every label once.
    have hnext : ∀ entry : ArgumentLabel × Expression, entry.1 ∉ found.map Prod.fst →
        ((found ++ [entry]).map Prod.fst).Nodup := by
      intro entry hnew
      rw [List.map_append, List.nodup_append]
      exact ⟨hfound, by simp, by rintro a ha b hb rfl; simp_all⟩
    constructor
    · intro h
      obtain ⟨entry, rfl, hnew⟩ := labelled_of_collect h
      rw [collect_labelled hnew] at h
      obtain ⟨entries, rfl, hresult, hnodup⟩ := (ih (hnext entry hnew)).1 h
      exact ⟨entry :: entries, rfl, by simpa using hresult, hnodup⟩
    · rintro ⟨entries, hentries, rfl, hnodup⟩
      obtain ⟨entry, entries, rfl, rfl, rfl⟩ := List.map_eq_cons_iff.1 hentries.symm
      have hnew : entry.1 ∉ found.map Prod.fst := by
        rw [List.map_append, List.nodup_append] at hnodup
        intro hmem
        exact hnodup.2.2 _ hmem _ List.mem_cons_self rfl
      rw [collect_labelled hnew]
      exact (ih (hnext entry hnew)).2 ⟨entries, rfl, by simp, hnodup⟩

/-! ## The first argument without a label of its own

The three mistakes as a relation between an argument, those before it and the mistake. It is stated
without `collect`, so that it can serve as the meaning of the check of the labels elsewhere. -/

/-- What is wrong with the label of an argument, given the arguments before it: it is missing, or no
label of the directive, or was used before. An empty label counts as missing. -/
inductive LabelMistake (directive : Text) (before : List Argument) (argument : Argument) :
    Mistake → Prop where
  | missing : argument.label = none ∨ argument.label = some [] →
      LabelMistake directive before argument (.missingLabel directive before.length)
  | unknown {label : Text} : argument.label = some label → label ≠ [] →
      (∀ known : ArgumentLabel, label ≠ known.word) →
      LabelMistake directive before argument (.unknownArgument directive label)
  | repeated {label : ArgumentLabel} : argument.label = some label.word →
      (∃ earlier ∈ before, earlier.label = some label.word) →
      LabelMistake directive before argument (.duplicateArgument label)

theorem mem_found_iff {found : List (ArgumentLabel × Expression)} {label : ArgumentLabel} :
    label ∈ found.map Prod.fst ↔
      ∃ earlier ∈ found.map labelled, earlier.label = some label.word := by
  constructor
  · intro h
    obtain ⟨entry, hentry, rfl⟩ := List.mem_map.1 h
    exact ⟨labelled entry, List.mem_map_of_mem hentry, rfl⟩
  · rintro ⟨earlier, hearlier, hlabel⟩
    obtain ⟨entry, hentry, rfl⟩ := List.mem_map.1 hearlier
    rw [← label_eq_of_labelled hlabel]
    exact List.mem_map_of_mem hentry

/-- An argument with a mistake in its label is where collecting stops, whatever follows. The number
of arguments before it is the position that a missing label is reported with. -/
theorem collect_of_labelMistake {directive : Text} {found : List (ArgumentLabel × Expression)}
    {argument : Argument} {mistake : Mistake}
    (h : LabelMistake directive (found.map labelled) argument mistake) (more : List Argument) :
    collect directive found.length found (argument :: more) = .error mistake := by
  cases h with
  | missing hlabel => rcases hlabel with hlabel | hlabel <;> simp [collect, hlabel]
  | @unknown label hlabel hne hunknown =>
    have hword : (Vocabulary.ofWord? label : Option ArgumentLabel) = none := by
      cases hknown : (Vocabulary.ofWord? label : Option ArgumentLabel) with
      | none => rfl
      | some known => exact absurd (Vocabulary.ofWord?_eq_some_iff.1 hknown).symm (hunknown known)
    cases label with
    | nil => exact absurd rfl hne
    | cons c rest => simp [collect, hlabel, hword]
  | @repeated label hlabel hearlier =>
    have hfound : label ∈ found.map Prod.fst := mem_found_iff.2 hearlier
    have hword : Vocabulary.ofWord? label.word = some label :=
      Vocabulary.ofWord?_eq_some_iff.2 rfl
    cases hspelled : label.word with
    | nil => exact absurd hspelled (word_ne_nil label)
    | cons c rest =>
      rw [hspelled] at hlabel hword
      simp only [collect, hlabel, hword]
      rw [if_pos hfound]

/-- Every argument has a mistake in its label or a label of its own. The cases are those of
`collect` on one argument. -/
theorem labelMistake_or_labelled (directive : Text) (found : List (ArgumentLabel × Expression))
    (argument : Argument) :
    (∃ mistake, LabelMistake directive (found.map labelled) argument mistake) ∨
      ∃ entry, argument = labelled entry ∧ entry.1 ∉ found.map Prod.fst := by
  obtain ⟨label?, e⟩ := argument
  cases label? with
  | none => exact .inl ⟨_, .missing (.inl rfl)⟩
  | some label =>
    by_cases hnil : label = []
    · exact .inl ⟨_, .missing (.inr (by rw [hnil]))⟩
    cases hword : (Vocabulary.ofWord? label : Option ArgumentLabel) with
    | none =>
      refine .inl ⟨_, .unknown rfl hnil fun known hknown => ?_⟩
      rw [Vocabulary.ofWord?_eq_some_iff.2 hknown.symm] at hword
      cases hword
    | some known =>
      obtain rfl : known.word = label := Vocabulary.ofWord?_eq_some_iff.1 hword
      by_cases hfound : known ∈ found.map Prod.fst
      · exact .inl ⟨_, .repeated rfl (mem_found_iff.1 hfound)⟩
      · exact .inr ⟨(known, e), rfl, hfound⟩

/-- **Collecting fails as the first argument with a mistake in its label says.** By induction on the
arguments, with those already collected standing before all others. -/
theorem collect_eq_error_iff {directive : Text} {arguments : List Argument} {mistake : Mistake} :
    ∀ found : List (ArgumentLabel × Expression),
      collect directive found.length found arguments = .error mistake ↔
        ∃ before argument,
          Outcome.IsFirst (fun before argument =>
            ∃ m, LabelMistake directive (found.map labelled ++ before) argument m)
            arguments before argument ∧
          LabelMistake directive (found.map labelled ++ before) argument mistake := by
  induction arguments with
  | nil => simp [collect, Outcome.not_isFirst_nil]
  | cons argument more ih =>
    intro found
    simp only [Outcome.isFirst_cons_iff, List.append_nil]
    rcases labelMistake_or_labelled directive found argument with ⟨m, hm⟩ | ⟨entry, rfl, hnew⟩
    · rw [collect_of_labelMistake hm]
      constructor
      · intro h
        rw [Except.error.inj h] at hm
        exact ⟨[], argument, .inl ⟨rfl, rfl, mistake, hm⟩, by rwa [List.append_nil]⟩
      · rintro ⟨before, argument', ⟨rfl, rfl, _⟩ | ⟨hpassed, _⟩, hmistake⟩
        · rw [List.append_nil] at hmistake
          rw [← collect_of_labelMistake hm more, collect_of_labelMistake hmistake more]
        · exact absurd ⟨m, hm⟩ hpassed
    · have hpassed : ¬ ∃ m, LabelMistake directive (found.map labelled) (labelled entry) m := by
        rintro ⟨m, hm⟩
        have hstop := collect_of_labelMistake hm []
        rw [collect_labelled hnew] at hstop
        cases hstop
      -- What comes before an argument is the same, whether it counts as found or as passed.
      have hbefore : ∀ before, (found ++ [entry]).map labelled ++ before =
          found.map labelled ++ labelled entry :: before := by
        intro before
        simp
      have hmore := ih (found ++ [entry])
      simp only [hbefore, List.length_append, List.length_singleton] at hmore
      rw [collect_labelled hnew, hmore]
      constructor
      · rintro ⟨before, argument, hfirst, hmistake⟩
        exact ⟨labelled entry :: before, argument, .inr ⟨hpassed, before, rfl, hfirst⟩, hmistake⟩
      · rintro ⟨before, argument, ⟨_, _, h⟩ | ⟨_, before, rfl, hfirst⟩, hmistake⟩
        · exact absurd h hpassed
        · exact ⟨before, argument, hfirst, hmistake⟩

/-! ## Three arguments

With as many arguments as there are labels, all different, every label is used. That is a count,
made by going through the labels of the first two arguments. -/

/-- Three entries whose labels differ are the three of the directive, in some order. So each label
can be looked up, and no lookup fails. -/
theorem exists_perm_of_nodup {entries : List (ArgumentLabel × Expression)}
    (hlength : entries.length = 3) (hnodup : (entries.map Prod.fst).Nodup) :
    ∃ comparable coding statements, entries.Perm
      [(.comparableMembers, comparable), (.codingMembers, coding),
        (.uselessInitializations, statements)] := by
  have hall : ∀ label : ArgumentLabel, ∃ e, (label, e) ∈ entries := by
    intro label
    have hsub : (entries.map Prod.fst).Subperm (Vocabulary.all : List ArgumentLabel) :=
      List.subperm_of_subset hnodup fun l _ => Vocabulary.mem_all l
    have hperm := hsub.perm_of_length_le (by simp [hlength, Vocabulary.all])
    obtain ⟨⟨l, e⟩, he, rfl⟩ := List.mem_map.1 (hperm.mem_iff.2 (Vocabulary.mem_all label))
    exact ⟨e, he⟩
  obtain ⟨comparable, hcomparable⟩ := hall .comparableMembers
  obtain ⟨coding, hcoding⟩ := hall .codingMembers
  obtain ⟨statements, hstatements⟩ := hall .uselessInitializations
  refine ⟨comparable, coding, statements, List.Perm.symm ?_⟩
  refine (List.subperm_of_subset (by simp) ?_).perm_of_length_le (by simp [hlength])
  intro entry hentry
  simp only [List.mem_cons, List.not_mem_nil, or_false] at hentry
  rcases hentry with rfl | rfl | rfl
  · exact hcomparable
  · exact hcoding
  · exact hstatements

/-- A label that stands before one expression only is looked up to that expression. The lookup takes
the first entry with the label, and there is no other. -/
theorem expressionOf_eq_ok_of_mem {found : List (ArgumentLabel × Expression)}
    (hnodup : (found.map Prod.fst).Nodup) {label : ArgumentLabel} {e : Expression}
    (h : (label, e) ∈ found) : expressionOf label found = .ok e := by
  have hlookup : found.lookup label = some e := by
    induction found with
    | nil => cases h
    | cons entry more ih =>
      obtain ⟨l, e'⟩ := entry
      rw [List.map_cons, List.nodup_cons] at hnodup
      rcases List.mem_cons.1 h with heq | hmem
      · cases heq
        simp
      · have hne : label ≠ l := by
          rintro rfl
          exact hnodup.1 (List.mem_map.2 ⟨_, hmem, rfl⟩)
        rw [List.lookup_cons, beq_eq_false_iff_ne.2 hne]
        exact ih hnodup.2 hmem
  rw [expressionOf, hlookup]

end Directive

end MemberSynthesis
