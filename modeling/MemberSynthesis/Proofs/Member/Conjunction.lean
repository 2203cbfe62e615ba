import MemberSynthesis.Proofs.Member.Reading
import MemberSynthesis.Proofs.Outcome

/-!
# Which conjunctions can be read

A condition is written from names of any spelling, and read as a conjunction of comparisons of
identifiers. **It can be read just when all its names are identifiers, and then as what it was
written from** (`conjuncts_agreement_eq_some_iff`). One direction is the inverse of writing. For the
other a text has only one reading: two conditions are the same text only if they are written from
the same names, if the names of one of them are identifiers (`agreement_injective`).

That is not obvious, because a name may hold anything: spaces, equals signs and whole comparisons. A
condition on one name such as `a == rhs.a && lhs.b` can look like a condition on two for a long
stretch. What decides is a count. Nowhere in a readable condition do three equals signs stand
without an ampersand between them (`count_le_of_isInfix`), while the comparison of a name that goes
on after an identifier as a comparison does has that many. So a name that is no identifier leaves a
trace in the text, wherever it stands.

The names of the weaker equality are plain strings that nobody has tested, which is why the general
statement is needed and not only the one for identifiers.
-/

set_option autoImplicit false

namespace MemberSynthesis

namespace Reader

/-! ## What was cut is put together again -/

theorem conjuncts_ne_nil (text : Text) : conjuncts text ≠ [] := by
  fun_induction conjuncts text <;> simp

/-- **The conjuncts, with conjunctions between them, are the condition again.** Cutting loses
nothing, whatever the text is. -/
theorem joined_conjuncts (text : Text) : Text.joined " && " (conjuncts text) = text := by
  fun_induction conjuncts text with
  | case1 => rfl
  | case2 rest ih =>
    rw [Text.joined_cons _ _ (conjuncts_ne_nil rest), ih]
    rfl
  | case3 c rest _ hnil => exact absurd hnil (conjuncts_ne_nil rest)
  | case4 c rest _ first more hcons ih =>
    rw [hcons] at ih
    cases more with
    | nil =>
      rw [Text.joined_singleton] at ih ⊢
      rw [ih]
    | cons next more =>
      rw [Text.joined_cons _ _ (List.cons_ne_nil _ _)] at ih ⊢
      rw [← ih]
      rfl

/-- Texts that are read as comparisons are the comparisons of what is read, and what is read are
identifiers. -/
theorem eq_map_comparison {texts names : List Text} (h : texts.mapM compared? = some names) :
    texts = names.map Member.comparison ∧ ∀ name ∈ names, name.isIdentifier := by
  induction texts generalizing names with
  | nil =>
    cases h
    simp
  | cons text more ih =>
    rw [List.mapM_cons] at h
    obtain ⟨name, hname, h⟩ := Option.bind_eq_some_iff.1 h
    obtain ⟨others, hothers, h⟩ := Option.bind_eq_some_iff.1 h
    cases h
    obtain ⟨hidentifier, rfl⟩ :=
      (doubled?_eq_some_iff fun _ => Text.endsWord_cons (by decide)).1 hname
    obtain ⟨rfl, hmore⟩ := ih hothers
    exact ⟨rfl, List.forall_mem_cons.2 ⟨hidentifier, hmore⟩⟩

end Reader

namespace Member

theorem agreement_singleton (name : Text) : agreement [name] = comparison name :=
  Text.joined_singleton _ _

theorem agreement_cons (name : Text) {more : List Text} (h : more ≠ []) :
    agreement (name :: more) = comparison name ++ (" && " ++ agreement more) :=
  Text.joined_cons _ _ (by simpa using h)

theorem exists_agreement_cons (name : Text) (more : List Text) :
    ∃ after, agreement (name :: more) = comparison name ++ after ∧
      (more = [] ∧ after = [] ∨ more ≠ [] ∧ after = " && " ++ agreement more) := by
  by_cases hmore : more = []
  · refine ⟨[], ?_, .inl ⟨hmore, rfl⟩⟩
    rw [hmore, agreement_singleton, List.append_nil]
  · exact ⟨_, agreement_cons name hmore, .inr ⟨hmore, rfl⟩⟩

/-! ## Equals signs and ampersands

The measure of a condition: how many equals signs a stretch of it has that holds no ampersand. In a
condition on identifiers such a stretch lies within one comparison and reaches into the conjunctions
around it at most, so it has two. -/

/-- A stretch without a code point lies before or after each place where that stands. It is applied
with the ampersand, at which a condition can be cut. -/
theorem isInfix_of_not_mem {stretch before after : Text} {c : CodePoint}
    (h : stretch <:+: before ++ c :: after) (hc : c ∉ stretch) :
    stretch <:+: before ∨ stretch <:+: after := by
  rcases List.infix_append_iff.1 h with h | h | ⟨left, right, rfl, hleft, hright⟩
  · exact .inl h
  · rcases List.infix_cons_iff.1 h with h | h
    · rcases List.prefix_cons_iff.1 h with rfl | ⟨more, rfl, _⟩
      · exact .inl List.nil_infix
      · exact absurd List.mem_cons_self hc
    · exact .inr h
  · rcases List.prefix_cons_iff.1 hright with rfl | ⟨more, rfl, _⟩
    · rw [List.append_nil]
      exact .inl hleft.isInfix
    · exact absurd (List.mem_append_right left List.mem_cons_self) hc

theorem count_name {name : Text} (h : name.isIdentifier) :
    name.count (CodePoint.scalar '=') = 0 :=
  List.count_eq_zero.2 (Text.not_mem_of_isIdentifier h (by decide))

theorem count_comparison {name : Text} (h : name.isIdentifier) :
    (comparison name).count (CodePoint.scalar '=') = 2 := by
  have hleft : ("lhs." : Text).count (CodePoint.scalar '=') = 0 := by decide
  have hright : (" == rhs." : Text).count (CodePoint.scalar '=') = 2 := by decide
  simp only [comparison, List.count_append, count_name h, hleft, hright]

/-- **Without an ampersand there are at most two equals signs** in a condition on identifiers. By
induction on the names: a stretch without an ampersand lies in the first comparison or behind it. -/
theorem count_le_of_isInfix {names : List Text} (h : ∀ name ∈ names, name.isIdentifier) :
    ∀ stretch : Text, stretch <:+: agreement names → CodePoint.scalar '&' ∉ stretch →
      stretch.count (CodePoint.scalar '=') ≤ 2 := by
  induction names with
  | nil =>
    intro stretch hstretch _
    obtain rfl : stretch = [] := List.infix_nil.1 hstretch
    exact Nat.zero_le 2
  | cons name more ih =>
    have hname := count_comparison (h name List.mem_cons_self)
    have hmore := ih fun other hother => h other (List.mem_cons_of_mem name hother)
    intro stretch hstretch hfree
    by_cases hnil : more = []
    · rw [hnil, agreement_singleton] at hstretch
      exact hname ▸ hstretch.sublist.count_le _
    · have hsplit : agreement (name :: more) =
          (comparison name ++ " ") ++ CodePoint.scalar '&' ::
            ([] ++ CodePoint.scalar '&' :: (" " ++ agreement more)) := by
        rw [agreement_cons name hnil, List.append_assoc]
        rfl
      rw [hsplit] at hstretch
      rcases isInfix_of_not_mem hstretch hfree with hstretch | hstretch
      · have hcount := hstretch.sublist.count_le (CodePoint.scalar '=')
        rwa [List.count_append, hname] at hcount
      rcases isInfix_of_not_mem hstretch hfree with hstretch | hstretch
      · rw [List.infix_nil.1 hstretch]
        exact Nat.zero_le 2
      -- The space before the next comparison makes no difference.
      rcases List.infix_cons_iff.1 hstretch with hstretch | hstretch
      · rcases List.prefix_cons_iff.1 hstretch with rfl | ⟨rest, rfl, hrest⟩
        · exact Nat.zero_le 2
        · have hcount := hmore rest hrest.isInfix fun hmem => hfree (List.mem_cons_of_mem _ hmem)
          rwa [List.count_cons_of_ne (by decide)]
      · exact hmore stretch hstretch hfree

/-! ## A condition on identifiers is written from them alone

Two conditions with the same text are compared from the front. Their first names are the same, so
the first comparisons can be taken off both; if one list of names is used up, so is the other. -/

/-- What stands around an identifier where one comparison goes on as another. -/
theorem not_mem_stretch {name : Text} (h : name.isIdentifier) :
    CodePoint.scalar '&' ∉ ("== rhs." ++ name ++ " =" : Text) := by
  simp only [List.mem_append, not_or]
  exact ⟨⟨by decide, Text.not_mem_of_isIdentifier h (by decide)⟩, by decide⟩

theorem count_stretch {name : Text} (h : name.isIdentifier) :
    ("== rhs." ++ name ++ " =" : Text).count (CodePoint.scalar '=') = 3 := by
  have hleft : ("== rhs." : Text).count (CodePoint.scalar '=') = 2 := by decide
  have hright : (" =" : Text).count (CodePoint.scalar '=') = 1 := by decide
  rw [List.count_append, List.count_append, count_name h, hleft, hright]

/-- A condition on identifiers starts with the comparison of no other name. If the two names
differed, one would go on behind the other, and the text would hold three equals signs without an
ampersand. -/
theorem eq_of_agreement_eq {name first rest more : Text} {names : List Text}
    (h : ∀ name ∈ names, name.isIdentifier) (hfirst : first.isIdentifier)
    (hname : agreement names = comparison name ++ rest)
    (hcomparison : agreement names = comparison first ++ more) : name = first := by
  have hequals : (" == rhs." : Text) =
      CodePoint.scalar ' ' :: CodePoint.scalar '=' :: ("= rhs." : Text) := rfl
  have hboth := hname.symm.trans hcomparison
  simp only [comparison, List.append_assoc, List.append_cancel_left_eq] at hboth
  rcases List.append_eq_append_iff.1 hboth with ⟨tail, rfl, htail⟩ | ⟨tail, rfl, htail⟩
  · cases tail with
    | nil => rw [List.append_nil]
    | cons c tail =>
      -- The identifier would hold a space.
      rw [hequals, List.cons_append, List.cons_append] at htail
      obtain ⟨rfl, _⟩ := List.cons.inj htail
      exact absurd (List.mem_append_right name List.mem_cons_self)
        (Text.not_mem_of_isIdentifier hfirst (by decide))
  · cases tail with
    | nil => rw [List.append_nil]
    | cons c tail =>
      cases tail with
      | nil =>
        rw [hequals] at htail
        cases htail
      | cons d tail =>
        -- The name goes on as the comparison does, so that a third equals sign comes too early.
        rw [hequals] at htail
        simp only [List.cons_append, List.cons.injEq] at htail
        obtain ⟨rfl, rfl, _⟩ := htail
        have hstretch : ("== rhs." ++ first ++ " =" : Text) <:+: agreement names := by
          refine ⟨"lhs." ++ (first ++ " =" ++ tail) ++ " ", tail ++ rest, ?_⟩
          rw [hname]
          simp [comparison, Text.ofString]
        have hcount := count_le_of_isInfix h _ hstretch (not_mem_stretch hfirst)
        rw [count_stretch hfirst] at hcount
        omega

/-- **Only one list of names makes a condition on identifiers.** Neither list may be empty: without
names, there is no condition to compare. -/
theorem agreement_injective {names others : List Text} (hnames : ∀ name ∈ names, name.isIdentifier)
    (hne : names ≠ []) (hothers : others ≠ []) (h : agreement others = agreement names) :
    others = names := by
  induction names generalizing others with
  | nil => exact absurd rfl hne
  | cons name more ih =>
    cases others with
    | nil => exact absurd rfl hothers
    | cons other rest =>
      obtain ⟨after, hafter, hmore⟩ := exists_agreement_cons name more
      obtain ⟨after', hafter', hrest⟩ := exists_agreement_cons other rest
      obtain rfl : other = name :=
        eq_of_agreement_eq hnames (hnames name List.mem_cons_self) (h ▸ hafter') hafter
      rw [hafter, hafter', List.append_cancel_left_eq] at h
      rcases hmore with ⟨rfl, rfl⟩ | ⟨hmore, rfl⟩
      · rcases hrest with ⟨rfl, _⟩ | ⟨_, rfl⟩
        · rfl
        · cases h
      · rcases hrest with ⟨_, rfl⟩ | ⟨hrest, rfl⟩
        · cases h
        · have hidentifiers := fun n hn => hnames n (List.mem_cons_of_mem other hn)
          rw [ih hidentifiers hmore hrest (List.append_cancel_left h)]

/-- **A condition can be read just when its names are identifiers, and then as these names.** So a
reader is never misled by what a name holds. -/
theorem conjuncts_agreement_eq_some_iff {names read : List Text} (hne : names ≠ []) :
    (Reader.conjuncts (agreement names)).mapM Reader.compared? = some read ↔
      read = names ∧ ∀ name ∈ names, name.isIdentifier := by
  constructor
  · intro h
    obtain ⟨hconjuncts, hread⟩ := Reader.eq_map_comparison h
    have hagreement : agreement names = agreement read := by
      rw [agreement, agreement, ← hconjuncts, Reader.joined_conjuncts]
      rfl
    have hreadNe : read ≠ [] := by
      rintro rfl
      exact Reader.conjuncts_ne_nil _ hconjuncts
    obtain rfl := agreement_injective hread hreadNe hne hagreement
    exact ⟨rfl, hread⟩
  · rintro ⟨rfl, h⟩
    rw [conjuncts_agreement hne h,
      Outcome.mapM_map_eq_some fun name hname => Reader.compared?_comparison (h name hname),
      List.map_id']

end Member

end MemberSynthesis
