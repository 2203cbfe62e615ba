import MemberSynthesis.Proofs.Directive.Acceptance

/-!
# Which mistake is reported

A directive may have several mistakes at once, and one of them is reported. What the checks look for
is written down here check by check (`FailsAt`), each on its own: what is wrong, and, where a list
is searched, which element is the first that is wrong. The report is then settled by the order of
the checks alone (`first_failure_wins`): **the mistake is the one of the first check that fails**.

The point of `FailsAt` is that it is not the program read aloud. A check of the values is described
as if all others had been passed or did not exist; it speaks of the argument with a label, wherever
it stands, and of descriptors that are read one by one. That the program makes the checks one after
the other, and looks the values up in between, is what has to be reconciled with this, and
`isSettled_bind` does so for one check at a time. **Each step of the interpretation is thus one
application of the same lemma**, and adding a check would add one such step.

The checks after the labels find the arguments by their labels. **Once every argument has a label of
its own, the order in which the arguments are written makes no difference to anything**
(`interpret_perm`), neither to the schema nor to the mistake. Before that it does: the first
argument with a wrong label is the one that is named.
-/

set_option autoImplicit false

namespace MemberSynthesis

namespace Directive

/-! ## The checks

Eight of them. Their order is a number and not the order of the constructors, so that what comes
first is a statement about ranks, which `omega` understands. -/

/-- A check that a directive has to pass. -/
inductive Check where
  /-- What the directive is attached to. -/
  | attachment
  /-- How many arguments there are. -/
  | count
  /-- Whether every argument has a label of its own. -/
  | labels
  /-- Whether the names to compare are an array of plain strings. -/
  | comparable
  /-- Whether the descriptors are an array of plain strings. -/
  | coding
  /-- Whether the descriptors describe fields. -/
  | descriptors
  /-- Whether no two coding fields have one name. -/
  | names
  /-- Whether the statements are a plain string. -/
  | statements
  deriving DecidableEq, Repr

/-- The position of a check in the order in which the checks are made. The names to compare come
before the descriptors, in whichever order the two arguments are written. -/
def Check.rank : Check → Nat
  | attachment => 1
  | count => 2
  | labels => 3
  | comparable => 4
  | coding => 5
  | descriptors => 6
  | names => 7
  | statements => 8

theorem Check.rank_injective {check other : Check} (h : check.rank = other.rank) :
    check = other := by
  cases check <;> cases other <;> first | rfl | cases h

/-- What a check finds wrong with a directive. Each check is described as if it were the only one;
those of the values speak of the arguments by their labels. -/
inductive FailsAt (directive : Attribute) (declaration : Declaration) : Check → Mistake → Prop where
  | attachment : declaration.kind ≠ .classType → declaration.kind ≠ .structType →
      declaration.kind ≠ .actorType →
      FailsAt directive declaration .attachment (.wrongAttachment directive.name declaration)
  | count : directive.arguments.length ≠ 3 →
      FailsAt directive declaration .count
        (.wrongArgumentCount directive.name directive.arguments.length)
  | labels {before : List Argument} {argument : Argument} {mistake : Mistake} :
      Outcome.IsFirst (fun before argument => ∃ m, LabelMistake directive.name before argument m)
        directive.arguments before argument →
      LabelMistake directive.name before argument mistake →
      FailsAt directive declaration .labels mistake
  | comparable {e : Expression} {mistake : Mistake} :
      ⟨some ArgumentLabel.comparableMembers.word, e⟩ ∈ directive.arguments →
      e.ArrayMistake ArgumentLabel.comparableMembers.word mistake →
      FailsAt directive declaration .comparable mistake
  | coding {e : Expression} {mistake : Mistake} :
      ⟨some ArgumentLabel.codingMembers.word, e⟩ ∈ directive.arguments →
      e.ArrayMistake ArgumentLabel.codingMembers.word mistake →
      FailsAt directive declaration .coding mistake
  | descriptors {descriptors before : List Text} {descriptor : Text} :
      ⟨some ArgumentLabel.codingMembers.word, .array (descriptors.map Expression.plain)⟩ ∈
        directive.arguments →
      Outcome.IsFirst (fun _ descriptor => Descriptor.field? descriptor = none)
        descriptors before descriptor →
      FailsAt directive declaration .descriptors (.malformedDescriptor descriptor)
  | names {descriptors before : List Text} {own : List Field} {name : Text} :
      ⟨some ArgumentLabel.codingMembers.word, .array (descriptors.map Expression.plain)⟩ ∈
        directive.arguments →
      List.Forall₂ (fun descriptor field => Descriptor.field? descriptor = some field)
        descriptors own →
      Outcome.IsFirst (fun before name => name ∈ before)
        ((own ++ Field.implicit).map Field.name) before name →
      FailsAt directive declaration .names (.duplicateField name)
  | statements {e : Expression} :
      ⟨some ArgumentLabel.uselessInitializations.word, e⟩ ∈ directive.arguments →
      (∀ text, e ≠ .plain text) →
      FailsAt directive declaration .statements
        (.plainStringExpected ArgumentLabel.uselessInitializations.word)

/-! ## The order decides

A directive passes the first checks if none of them fails. Every step of the interpretation makes
one more check: what follows it is asked about directives that pass that check too. -/

variable {directive : Attribute} {declaration : Declaration} {rank : Nat}

/-- The directive passes the checks up to a rank: none of them finds anything wrong. -/
def Passes (directive : Attribute) (declaration : Declaration) (rank : Nat) : Prop :=
  ∀ check : Check, check.rank ≤ rank → ∀ mistake, ¬ FailsAt directive declaration check mistake

/-- The outcome is a failure just when some check fails, and then it is what the first one finds.
Quantified over all rejections, so that an outcome that is no mistake would be excluded too. -/
def IsSettled (directive : Attribute) (declaration : Declaration)
    (outcome : Except Rejection Schema) : Prop :=
  ∀ rejection, outcome = .error rejection ↔
    ∃ check mistake, rejection = .mistake mistake ∧ FailsAt directive declaration check mistake ∧
      ∀ earlier : Check, earlier.rank < check.rank →
        ∀ other, ¬ FailsAt directive declaration earlier other

theorem passes_zero : Passes directive declaration 0 := by
  intro check hrank
  cases check <;> simp [Check.rank] at hrank

theorem Passes.succ {check : Check} (hpasses : Passes directive declaration rank)
    (hrank : check.rank = rank + 1)
    (hcheck : ∀ mistake, ¬ FailsAt directive declaration check mistake) :
    Passes directive declaration (rank + 1) := by
  intro other hother
  rcases Nat.lt_or_eq_of_le hother with hlt | heq
  · exact hpasses other (Nat.le_of_lt_succ hlt)
  · rw [Check.rank_injective (heq.trans hrank.symm)]
    exact hcheck

/-- A directive that passes all checks is not rejected. The eighth is the last one. -/
theorem isSettled_ok {schema : Schema} (hpasses : Passes directive declaration 8) :
    IsSettled directive declaration (.ok schema) := by
  intro rejection
  constructor
  · intro h
    cases h
  · rintro ⟨check, mistake, _, hfails, _⟩
    exact absurd hfails (hpasses check (by cases check <;> decide) mistake)

/-- **One check settles what is rejected by it, and leaves the rest to what follows.** What follows
may assume that this check was passed, and has to settle the checks of higher rank only. -/
theorem isSettled_bind {α : Type} {outcome : Except Rejection α}
    {next : α → Except Rejection Schema} (check : Check)
    (hpasses : Passes directive declaration rank) (hrank : check.rank = rank + 1)
    (hcheck : ∀ rejection, outcome = .error rejection ↔
      ∃ mistake, rejection = .mistake mistake ∧ FailsAt directive declaration check mistake)
    (hnext : ∀ a, outcome = .ok a → Passes directive declaration (rank + 1) →
      IsSettled directive declaration (next a)) :
    IsSettled directive declaration (outcome >>= next) := by
  cases houtcome : outcome with
  | ok a =>
    refine hnext a houtcome (hpasses.succ hrank fun mistake hfails => ?_)
    have hrejected := (hcheck _).2 ⟨mistake, rfl, hfails⟩
    rw [houtcome] at hrejected
    cases hrejected
  | error found =>
    intro rejection
    constructor
    · intro h
      obtain ⟨mistake, hmistake, hfails⟩ := (hcheck found).1 houtcome
      refine ⟨check, mistake, (Except.error.inj h).symm.trans hmistake, hfails, ?_⟩
      exact fun earlier hearlier => hpasses earlier (by omega)
    · rintro ⟨other, mistake, rfl, hfails, hfirst⟩
      -- The first check to fail is this one: those before it are passed, and it fails.
      obtain ⟨m, _, hm⟩ := (hcheck found).1 houtcome
      have hle : other.rank ≤ check.rank := Nat.le_of_not_lt fun h => hfirst check h m hm
      have hge : ¬ other.rank ≤ rank := fun h => hpasses other h mistake hfails
      obtain rfl : other = check := Check.rank_injective (by omega)
      have hfound := houtcome.symm.trans ((hcheck _).2 ⟨mistake, rfl, hfails⟩)
      rw [hfound]
      rfl

/-- A check that compares nothing but one condition, and finds the same mistake whenever it
fails. -/
theorem isSettled_ite {found : Mistake} {c : Prop} [Decidable c]
    {next : Except Rejection Schema} (check : Check)
    (hpasses : Passes directive declaration rank) (hrank : check.rank = rank + 1)
    (hcheck : ∀ mistake, FailsAt directive declaration check mistake ↔ c ∧ mistake = found)
    (hnext : ¬ c → Passes directive declaration (rank + 1) →
      IsSettled directive declaration next) :
    IsSettled directive declaration (if c then .error (.mistake found) else next) := by
  have hbind : (if c then .error (.mistake found) else next) =
      (if c then .error (.mistake found) else .ok ()) >>= fun _ : Unit => next := by
    split <;> rfl
  rw [hbind]
  refine isSettled_bind check hpasses hrank ?_ ?_
  · intro rejection
    by_cases hc : c <;> simp [hc, hcheck, eq_comm]
  · intro _ hpassed
    refine hnext fun hc => ?_
    rw [if_pos hc] at hpassed
    cases hpassed

/-! ## Every step is its check

For each check, that `FailsAt` holds of a mistake just when the step of the interpretation fails
with it. Those of the values are stated for directives whose labels are in order, since only then
there is one value to speak of. -/

theorem failsAt_attachment_iff {mistake : Mistake} :
    FailsAt directive declaration .attachment mistake ↔
      declaration.kind ∉ Mistake.attachableKinds ∧
        mistake = .wrongAttachment directive.name declaration := by
  rw [mem_attachableKinds_iff]
  constructor
  · intro h
    cases h with
    | attachment hclass hstruct hactor => exact ⟨by simp [hclass, hstruct, hactor], rfl⟩
  · rintro ⟨hkind, rfl⟩
    exact .attachment (fun h => hkind (.inl h)) (fun h => hkind (.inr (.inl h)))
      (fun h => hkind (.inr (.inr h)))

theorem failsAt_count_iff {mistake : Mistake} :
    FailsAt directive declaration .count mistake ↔
      directive.arguments.length ≠ 3 ∧
        mistake = .wrongArgumentCount directive.name directive.arguments.length := by
  constructor
  · intro h
    cases h with
    | count hcount => exact ⟨hcount, rfl⟩
  · rintro ⟨hcount, rfl⟩
    exact .count hcount

theorem failsAt_labels_iff {mistake : Mistake} :
    FailsAt directive declaration .labels mistake ↔
      collect directive.name 0 [] directive.arguments = .error mistake := by
  constructor
  · intro h
    cases h with
    | labels hfirst hmistake => exact (collect_eq_error_iff []).2 ⟨_, _, hfirst, hmistake⟩
  · intro h
    obtain ⟨before, argument, hfirst, hmistake⟩ := (collect_eq_error_iff []).1 h
    exact .labels hfirst hmistake

section Values

/-! The checks of the values look for an argument with a label; there is just one. -/

variable {comparable coding statements : Expression}

theorem failsAt_comparable_iff {mistake : Mistake}
    (hvalue : ∀ e, ⟨some ArgumentLabel.comparableMembers.word, e⟩ ∈ directive.arguments ↔
      e = comparable) :
    FailsAt directive declaration .comparable mistake ↔
      comparable.plainStrings ArgumentLabel.comparableMembers.word = .error mistake := by
  rw [Expression.plainStrings_eq_error_iff]
  constructor
  · intro h
    cases h with
    | comparable hmem hmistake => rwa [← (hvalue _).1 hmem]
  · exact .comparable ((hvalue _).2 rfl)

theorem failsAt_coding_iff {mistake : Mistake}
    (hvalue : ∀ e, ⟨some ArgumentLabel.codingMembers.word, e⟩ ∈ directive.arguments ↔
      e = coding) :
    FailsAt directive declaration .coding mistake ↔
      coding.plainStrings ArgumentLabel.codingMembers.word = .error mistake := by
  rw [Expression.plainStrings_eq_error_iff]
  constructor
  · intro h
    cases h with
    | coding hmem hmistake => rwa [← (hvalue _).1 hmem]
  · exact .coding ((hvalue _).2 rfl)

theorem failsAt_statements_iff {mistake : Mistake}
    (hvalue : ∀ e, ⟨some ArgumentLabel.uselessInitializations.word, e⟩ ∈ directive.arguments ↔
      e = statements) :
    FailsAt directive declaration .statements mistake ↔
      statements.plainString ArgumentLabel.uselessInitializations.word = .error mistake := by
  rw [Expression.plainString_eq_error_iff]
  constructor
  · intro h
    cases h with
    | statements hmem hplain =>
      rw [(hvalue _).1 hmem] at hplain
      exact ⟨hplain, rfl⟩
  · rintro ⟨hplain, rfl⟩
    exact .statements ((hvalue _).2 rfl) hplain

variable {descriptors : List Text}

theorem failsAt_descriptors_iff {rejection : Rejection}
    (hvalue : ∀ e, ⟨some ArgumentLabel.codingMembers.word, e⟩ ∈ directive.arguments ↔
      e = .array (descriptors.map Expression.plain)) :
    descriptors.mapM readField = .error rejection ↔
      ∃ mistake, rejection = .mistake mistake ∧
        FailsAt directive declaration .descriptors mistake := by
  simp only [Outcome.mapM_eq_error_iff, readField_eq_error_iff, exists_and_left, exists_eq,
    and_true]
  constructor
  · rintro ⟨before, descriptor, hfirst, _, rfl⟩
    exact ⟨_, rfl, .descriptors ((hvalue _).2 rfl) hfirst⟩
  · rintro ⟨mistake, rfl, h⟩
    cases h with
    | @descriptors others before descriptor hmem hfirst =>
      obtain rfl : others = descriptors :=
        Expression.map_plain_injective (Expression.array.inj ((hvalue _).1 hmem))
      exact ⟨before, descriptor, hfirst, hfirst.2.1, rfl⟩

theorem failsAt_names_iff {own : List Field} {mistake : Mistake}
    (hvalue : ∀ e, ⟨some ArgumentLabel.codingMembers.word, e⟩ ∈ directive.arguments ↔
      e = .array (descriptors.map Expression.plain))
    (hdescribed : List.Forall₂ (fun descriptor field => readField descriptor = .ok field)
      descriptors own) :
    FailsAt directive declaration .names mistake ↔
      ∃ name, firstRepeated? [] ((own ++ Field.implicit).map Field.name) = some name ∧
        mistake = .duplicateField name := by
  simp only [readField_eq_ok_iff] at hdescribed
  simp only [firstRepeated?_eq_some_iff, List.not_mem_nil, or_false]
  constructor
  · intro h
    cases h with
    | @names others before own' name hmem hothers hfirst =>
      obtain rfl : others = descriptors :=
        Expression.map_plain_injective (Expression.array.inj ((hvalue _).1 hmem))
      -- A descriptor describes one field.
      have hunique : Relator.RightUnique fun descriptor field =>
          Descriptor.field? descriptor = some field := fun _ _ _ h h' =>
        Option.some.inj (h.symm.trans h')
      obtain rfl : own' = own := List.right_unique_forall₂' hunique hothers hdescribed
      exact ⟨name, ⟨before, hfirst⟩, rfl⟩
  · rintro ⟨name, ⟨before, hfirst⟩, rfl⟩
    exact .names ((hvalue _).2 rfl) hdescribed hfirst

end Values

/-! ## The whole

The checks of the fields, of the values and of the directive, put together from the inside to the
outside. Ranks are what each lemma starts from and ends with. -/

/-- The fields are settled in two checks, of the descriptors and of the names. The second one needs
the fields that the first one has read. -/
theorem isSettled_codingFields {descriptors : List Text}
    {next : List Field → Except Rejection Schema}
    (hvalue : ∀ e, ⟨some ArgumentLabel.codingMembers.word, e⟩ ∈ directive.arguments ↔
      e = .array (descriptors.map Expression.plain))
    (hpasses : Passes directive declaration 5)
    (hnext : ∀ fields, codingFields descriptors = .ok fields → Passes directive declaration 7 →
      IsSettled directive declaration (next fields)) :
    IsSettled directive declaration (codingFields descriptors >>= next) := by
  unfold codingFields
  rw [bind_assoc]
  refine isSettled_bind .descriptors hpasses rfl (fun _ => failsAt_descriptors_iff hvalue) ?_
  intro own hown hpasses
  have hdescribed := Outcome.mapM_eq_ok_iff.1 hown
  refine isSettled_bind .names hpasses rfl ?_ ?_
  · intro rejection
    simp only [failsAt_names_iff hvalue hdescribed]
    cases firstRepeated? [] ((own ++ Field.implicit).map Field.name) with
    | none => simp [pure, Except.pure]
    | some name => simp [eq_comm]
  · intro fields hfields hpasses
    refine hnext fields ?_ hpasses
    unfold codingFields
    rw [hown]
    exact hfields

/-- What the three values describe is settled by the checks of the values, once the labels are in
order. -/
theorem isSettled_schemaOf {comparable coding statements : Expression}
    (hperm : directive.arguments.Perm (threeArguments comparable coding statements))
    (hpasses : Passes directive declaration 3) :
    IsSettled directive declaration (schemaOf declaration comparable coding statements) := by
  obtain ⟨hcomparable, hcoding, hstatements⟩ := mem_iff_of_perm hperm
  unfold schemaOf
  refine isSettled_bind .comparable hpasses rfl ?_ fun names hnames hpasses => ?_
  · intro rejection
    rw [orMistake_eq_error_iff]
    simp only [failsAt_comparable_iff hcomparable]
  refine isSettled_bind .coding hpasses rfl ?_ fun descriptors hdescriptors hpasses => ?_
  · intro rejection
    rw [orMistake_eq_error_iff]
    simp only [failsAt_coding_iff hcoding]
  obtain rfl := Expression.plainStrings_eq_ok_iff.1 (orMistake_eq_ok_iff.1 hdescriptors)
  refine isSettled_codingFields hcoding hpasses fun fields hfields hpasses => ?_
  refine isSettled_bind .statements hpasses rfl ?_ fun text htext hpasses => ?_
  · intro rejection
    rw [orMistake_eq_error_iff]
    simp only [failsAt_statements_iff hstatements]
  -- All that is left is the test of the invariants, which does not fail.
  obtain ⟨own, hdescribed, rfl, hnodup⟩ := codingFields_eq_ok_iff.1 hfields
  have hchecked := checked_schema ⟨names, descriptors, own, text⟩ declaration hdescribed hnodup
  exact (congrArg (IsSettled directive declaration) hchecked).mpr (isSettled_ok hpasses)

/-- **The rejection of a directive is what the first check that fails finds**, for every directive
and declaration, and there is none if all checks are passed. -/
theorem isSettled_interpret (directive : Attribute) (declaration : Declaration) :
    IsSettled directive declaration (interpret directive declaration) := by
  rw [interpret_eq]
  refine isSettled_ite .attachment passes_zero rfl (fun _ => failsAt_attachment_iff)
    fun _ hpasses => ?_
  refine isSettled_ite .count hpasses rfl (fun _ => failsAt_count_iff) fun hcount hpasses => ?_
  refine isSettled_bind .labels hpasses rfl ?_ fun found hfound hpasses => ?_
  · intro rejection
    rw [orMistake_eq_error_iff]
    simp only [failsAt_labels_iff]
  obtain ⟨comparable, coding, statements, hperm, hschema⟩ :=
    exists_threeArguments declaration (not_not.1 hcount) (orMistake_eq_ok_iff.1 hfound)
  rw [hschema]
  exact isSettled_schemaOf hperm hpasses

/-- **Once every argument has a label of its own, their order makes no difference**, neither to the
schema nor to the rejection. If their number is wrong, it is wrong in any order. -/
theorem interpret_perm {arguments : List Argument} (hperm : arguments.Perm directive.arguments)
    (hlabels : ∀ mistake, ¬ FailsAt directive declaration .labels mistake) :
    interpret ⟨directive.name, arguments⟩ declaration = interpret directive declaration := by
  by_cases hattached : declaration.kind ∈ Mistake.attachableKinds
  · by_cases hcount : directive.arguments.length = 3
    · cases hfound : collect directive.name 0 [] directive.arguments with
      | error mistake => exact absurd (failsAt_labels_iff.2 hfound) (hlabels mistake)
      | ok found =>
        obtain ⟨comparable, coding, statements, hthree, _⟩ :=
          exists_threeArguments declaration hcount hfound
        rw [interpret_of_perm hattached hthree]
        exact interpret_of_perm hattached (hperm.trans hthree)
    · rw [interpret_eq, interpret_eq, if_neg (not_not.2 hattached), if_neg (not_not.2 hattached),
        if_pos hcount, if_pos (by rwa [hperm.length_eq]), hperm.length_eq]
  · rw [interpret_eq, interpret_eq, if_pos hattached, if_pos hattached]

/-- **The first failure wins.** A directive is rejected just when some check fails, the rejection is
the mistake of the first such check, and from the check of the values on it is the same in whichever
order the arguments are written. -/
theorem first_failure_wins (directive : Attribute) (declaration : Declaration) :
    (∀ rejection, interpret directive declaration = .error rejection ↔
      ∃ check mistake, rejection = .mistake mistake ∧
        FailsAt directive declaration check mistake ∧
        ∀ earlier : Check, earlier.rank < check.rank →
          ∀ other, ¬ FailsAt directive declaration earlier other) ∧
    ((∀ mistake, ¬ FailsAt directive declaration .labels mistake) →
      ∀ arguments : List Argument, arguments.Perm directive.arguments →
        interpret ⟨directive.name, arguments⟩ declaration = interpret directive declaration) :=
  ⟨isSettled_interpret directive declaration, fun hlabels _ hperm => interpret_perm hperm hlabels⟩

/-- A directive with four mistakes in its values: the descriptors are no array of plain strings, two
of them would be refused, and the statements are no string. The labels stand in another order than
that of the checks. -/
def muddled : Attribute where
  name := directiveName
  arguments :=
    [⟨some "uselessInitializations", .raw "run"⟩,
      ⟨some "codingMembers", .array [.plain "servings Int", .plain "name: String", .raw "title"]⟩,
      ⟨some "comparableMembers", .array []⟩]

theorem first_failure_wins_muddled :
    (∃ check, FailsAt muddled ⟨.classType, "Recipe"⟩ check
        (.plainElementExpected 2 "codingMembers") ∧
      ∀ earlier : Check, earlier.rank < check.rank →
        ∀ other, ¬ FailsAt muddled ⟨.classType, "Recipe"⟩ earlier other) ∧
      interpret ⟨muddled.name, muddled.arguments.reverse⟩ ⟨.classType, "Recipe"⟩ =
        .error (.mistake (.plainElementExpected 2 "codingMembers")) := by
  obtain ⟨hfirst, hperm⟩ := first_failure_wins muddled ⟨.classType, "Recipe"⟩
  have hrejected : interpret muddled ⟨.classType, "Recipe"⟩ =
      .error (.mistake (.plainElementExpected 2 "codingMembers")) := by rfl
  have hlabels : ∀ mistake, ¬ FailsAt muddled ⟨.classType, "Recipe"⟩ .labels mistake := by
    intro mistake hmistake
    have hcollected := failsAt_labels_iff.1 hmistake
    cases hcollected
  constructor
  · obtain ⟨check, mistake, hmistake, hfails⟩ := (hfirst _).1 hrejected
    cases hmistake
    exact ⟨check, hfails⟩
  · rw [hperm hlabels _ (List.reverse_perm _), hrejected]

end Directive

end MemberSynthesis
