import MemberSynthesis.Proofs.Source.Layout

/-!
# Attributes before the directive

The directive is found by its name alone, and the search minds neither strings nor brackets: it
takes the first at sign that the name follows as a word. So other attributes may precede the
directive, but **their argument lists must not mention it** (`Snippet.read_writtenAll_append`). In a
string or wherever else, a mention there is taken for the directive, and what follows it is read
instead of the declaration.

## Where a mention can stand

Only inside the brackets. The at sign of an attribute starts a mention of that attribute, which has
another name; its name, the blanks and the brackets hold no at sign at all. That leaves the inside
of an argument list, and there the question does not depend on what follows the list, as the closing
bracket ends every word (`isUnmentionedIn_inside_iff`). The condition on a whole list of attributes
is therefore one on each argument list by itself, without its surroundings.

The results are `iff`s, and so they say both how far the search can be trusted and where it fails: a
text that is read with the directive in front is read behind other attributes just when none of them
mentions it. The last example of the module is one that does, in a message of `@available`.
-/

set_option autoImplicit false

namespace MemberSynthesis

namespace Attribute

variable {name piece more rest text : Text}

/-! ## Pieces without a mention -/

/-- No mention of the attribute starts in the piece, which `rest` follows. A mention that starts in
the piece may end behind it, which is why the rest has to be known. -/
def IsUnmentionedIn (name piece rest : Text) : Prop :=
  ∀ k < piece.length, isMention name ((piece ++ rest).drop k) = false

/-- A text is free of mentions if each of its two parts is, the first one in front of the second. By
this, an attribute is taken apart into its stretches. -/
theorem isUnmentionedIn_append_iff :
    IsUnmentionedIn name (piece ++ more) rest ↔
      IsUnmentionedIn name piece (more ++ rest) ∧ IsUnmentionedIn name more rest := by
  simp only [IsUnmentionedIn, List.append_assoc, List.length_append]
  constructor
  · intro h
    refine ⟨fun k hk => h k (by omega), fun k hk => ?_⟩
    have hbehind := h (piece.length + k) (by omega)
    rwa [List.drop_length_add_append] at hbehind
  · rintro ⟨hpiece, hmore⟩ k hk
    by_cases hlt : k < piece.length
    · exact hpiece k hlt
    · obtain ⟨n, rfl⟩ := Nat.exists_eq_add_of_le (Nat.le_of_not_lt hlt)
      rw [List.drop_length_add_append]
      exact hmore n (by omega)

/-- A mention starts with an at sign. -/
theorem isMention_cons_of_ne {c : CodePoint} (hc : c ≠ '@') :
    isMention name (c :: rest) = false := by
  rw [isMention, Bool.and_eq_false_iff]
  refine .inl ?_
  rw [Bool.eq_false_iff, ne_eq, List.isPrefixOf_iff_prefix]
  intro hstart
  exact hc (List.cons_prefix_cons.1 hstart).1.symm

/-- A piece without an at sign holds no start of a mention, whatever follows it. -/
theorem isUnmentionedIn_of_forall_ne (h : ∀ c ∈ piece, c ≠ CodePoint.scalar '@') :
    IsUnmentionedIn name piece rest := by
  intro k hk
  rw [List.drop_append_of_le_length (Nat.le_of_lt hk), List.drop_eq_getElem_cons hk,
    List.cons_append]
  exact isMention_cons_of_ne (h _ (List.getElem_mem hk))

/-! ## What an attribute mentions -/

/-- An attribute of another name is no mention: the identifier behind an at sign is one and the
same, however it is cut off. -/
theorem isMention_other {other : Text} (hname : name.isIdentifier) (hother : other.isIdentifier)
    (hne : other ≠ name) (hrest : rest.EndsWord) :
    isMention name (CodePoint.scalar '@' :: (other ++ rest)) = false := by
  rw [Bool.eq_false_iff]
  intro hmention
  obtain ⟨behind, htext, hbehind⟩ := (isMention_iff hname).1 hmention
  have hsplit : Identifier.split? (other ++ rest) = some (other, rest) :=
    Identifier.split?_eq_some_iff.2 ⟨hother, hrest, rfl⟩
  have hsame := (List.cons.inj htext).2
  rw [Identifier.split?_eq_some_iff.2 ⟨hname, hbehind, hsame⟩] at hsplit
  cases hsplit
  exact hne rfl

/-- What starts with neither a word character nor an at sign has no say in a mention that starts
before it: it can not go on with the name, and where it starts, the name ends. -/
theorem isMention_append_of_endsWord (hname : name.isIdentifier) (hrest : rest.EndsWord)
    (hmark : rest.head? ≠ some (CodePoint.scalar '@')) :
    isMention name (piece ++ rest) = isMention name piece := by
  rw [Bool.eq_iff_iff, isMention_iff hname, isMention_iff hname]
  constructor
  · rintro ⟨behind, htext, hbehind⟩
    rw [← List.cons_append] at htext
    rcases List.append_eq_append_iff.1 htext with ⟨more, hmention, rfl⟩ | ⟨more, rfl, rfl⟩
    · cases more with
      | nil =>
        rw [List.append_nil] at hmention
        exact ⟨[], by rw [← hmention, List.append_nil], Text.endsWord_nil⟩
      | cons c more =>
        -- The mention would go on in what follows, with its at sign or with its name.
        cases piece with
        | nil =>
          obtain ⟨rfl, _⟩ := List.cons.inj hmention
          exact absurd rfl hmark
        | cons d piece =>
          have hc : c ∈ name := by
            rw [(List.cons.inj hmention).2]
            exact List.mem_append_right _ List.mem_cons_self
          have hword : c.isWord = false := hrest
          rw [Text.isWord_of_mem hname hc] at hword
          cases hword
    · refine ⟨more, rfl, ?_⟩
      cases more with
      | nil => exact Text.endsWord_nil
      | cons c more => exact hbehind
  · rintro ⟨behind, rfl, hbehind⟩
    refine ⟨behind ++ rest, by rw [List.cons_append, List.append_assoc],
      hbehind.append (.inr hrest)⟩

/-- What is written inside an argument list is mentioned there or not, whatever follows the list. -/
theorem isUnmentionedIn_inside_iff {inside : Text} (hname : name.isIdentifier) :
    IsUnmentionedIn name inside (CodePoint.scalar ')' :: rest) ↔
      findMention? name inside = none := by
  rw [findMention?_eq_none_iff]
  have hsame : ∀ k, isMention name (inside.drop k ++ CodePoint.scalar ')' :: rest) =
      isMention name (inside.drop k) := fun k =>
    isMention_append_of_endsWord hname (Text.endsWord_cons (by decide))
      (by rw [List.head?_cons]; decide)
  constructor
  · intro h k
    rcases Nat.lt_or_ge k inside.length with hk | hk
    · rw [← hsame, ← List.drop_append_of_le_length (Nat.le_of_lt hk)]
      exact h k hk
    · rw [List.drop_of_length_le hk]
      rfl
  · intro h k hk
    rw [List.drop_append_of_le_length (Nat.le_of_lt hk), hsame, h k]

/-- Only the inside of an argument list can hold a mention, and not the blanks before it or its
brackets. -/
theorem isUnmentionedIn_list_iff {list : Option ArgumentList} (hname : name.isIdentifier) :
    IsUnmentionedIn name (ArgumentList.writtenOption list) rest ↔
      ∀ entry ∈ list, findMention? name entry.inside = none := by
  cases list with
  | none => exact iff_of_true (fun k hk => absurd hk (Nat.not_lt_zero k)) (by simp)
  | some list =>
    have hgap : ∀ c ∈ list.gap ++ [CodePoint.scalar '('], c ≠ CodePoint.scalar '@' := by
      rintro c hc rfl
      rcases List.mem_append.1 hc with hc | hc
      · exact absurd (list.blank _ hc) (by decide)
      · exact absurd hc (by decide)
    have hwritten : ArgumentList.writtenOption (some list) = (list.gap ++ [CodePoint.scalar '(']) ++
        (list.inside ++ [CodePoint.scalar ')']) := by simp [ArgumentList.writtenOption,
          ArgumentList.written]
    have hinside : IsUnmentionedIn name (list.inside ++ [CodePoint.scalar ')']) rest ↔
        findMention? name list.inside = none := by
      rw [isUnmentionedIn_append_iff, List.singleton_append, isUnmentionedIn_inside_iff hname]
      refine and_iff_left (isUnmentionedIn_of_forall_ne ?_)
      rintro c hc rfl
      exact absurd hc (by decide)
    rw [hwritten, isUnmentionedIn_append_iff, hinside]
    simpa using fun _ => isUnmentionedIn_of_forall_ne hgap

/-- **An attribute of another name is mentioned only in its argument list.** The attribute is taken
apart into its at sign, its name, its arguments and its blanks, and only the arguments remain. -/
theorem isUnmentionedIn_written_iff {passed : WrittenAttribute} (hname : name.isIdentifier)
    (hne : passed.name ≠ name) :
    IsUnmentionedIn name passed.written rest ↔
      ∀ list ∈ passed.list, findMention? name list.inside = none := by
  have hwritten : passed.written = [CodePoint.scalar '@'] ++ (passed.name ++
      (ArgumentList.writtenOption passed.list ++ passed.behind)) := rfl
  have hword : ∀ c ∈ passed.name, c ≠ CodePoint.scalar '@' := by
    rintro c hc rfl
    exact absurd hc (Text.not_mem_of_isIdentifier passed.identifier (by decide))
  have hblank : ∀ c ∈ passed.behind, c ≠ CodePoint.scalar '@' := by
    rintro c hc rfl
    exact absurd (passed.blank _ hc) (by decide)
  have hends : Text.EndsWord (ArgumentList.writtenOption passed.list ++ (passed.behind ++ rest)) :=
    ArgumentList.endsWord_writtenOption fun _ =>
      (Text.endsWord_of_blank (Text.head?_all_isBlank passed.blank)).append (.inl passed.separated)
  have hmark : IsUnmentionedIn name [CodePoint.scalar '@'] (passed.name ++
      (ArgumentList.writtenOption passed.list ++ passed.behind) ++ rest) := by
    intro k hk
    obtain rfl : k = 0 := by simpa using hk
    rw [List.drop_zero, List.singleton_append, List.append_assoc, List.append_assoc]
    exact isMention_other hname passed.identifier hne hends
  rw [hwritten, isUnmentionedIn_append_iff, isUnmentionedIn_append_iff, isUnmentionedIn_append_iff,
    isUnmentionedIn_list_iff hname]
  constructor
  · exact fun h => h.2.2.1
  · exact fun h => ⟨hmark, isUnmentionedIn_of_forall_ne hword, h,
      isUnmentionedIn_of_forall_ne hblank⟩

/-- Several attributes of other names hold no mention just when none of their argument lists
does. -/
theorem isUnmentionedIn_writtenAll_iff {attributes : List WrittenAttribute}
    (hname : name.isIdentifier) (hne : ∀ passed ∈ attributes, passed.name ≠ name) :
    IsUnmentionedIn name (WrittenAttribute.writtenAll attributes) rest ↔
      ∀ passed ∈ attributes, ∀ list ∈ passed.list, findMention? name list.inside = none := by
  induction attributes with
  | nil => exact iff_of_true (fun k hk => absurd hk (Nat.not_lt_zero k)) (by simp)
  | cons passed attributes ih =>
    obtain ⟨hpassed, hmore⟩ := List.forall_mem_cons.1 hne
    have hcons : WrittenAttribute.writtenAll (passed :: attributes) =
        passed.written ++ WrittenAttribute.writtenAll attributes := rfl
    rw [hcons, isUnmentionedIn_append_iff, isUnmentionedIn_written_iff hname hpassed, ih hmore,
      List.forall_mem_cons]

end Attribute

namespace Snippet

/-- **Other attributes before the directive have no say as long as they do not mention it.** Of a
text that starts with the directive, the directive is found behind the attributes just when none of
their argument lists holds a mention of it, in a string or elsewhere; and then the same snippet is
read. -/
theorem read_writtenAll_append {name text : Text} {snippet : Snippet} (hname : name.isIdentifier)
    (hstart : Attribute.isMention name text) (h : read name text = .ok snippet)
    (attributes : List WrittenAttribute) (hne : ∀ passed ∈ attributes, passed.name ≠ name) :
    (Attribute.findMention? name (WrittenAttribute.writtenAll attributes ++ text) =
        some (WrittenAttribute.writtenAll attributes).length ↔
      ∀ passed ∈ attributes, ∀ list ∈ passed.list, Attribute.findMention? name list.inside = none) ∧
    ((∀ passed ∈ attributes, ∀ list ∈ passed.list, Attribute.findMention? name list.inside = none) →
      read name (WrittenAttribute.writtenAll attributes ++ text) = .ok snippet) := by
  rw [← @Attribute.isUnmentionedIn_writtenAll_iff name text attributes hname hne]
  refine ⟨⟨fun hfound => ?_, fun hnone => ?_⟩, fun hnone => ?_⟩
  · exact (Attribute.isMention_of_findMention? hfound).2
  · rw [Attribute.findMention?_behind hnone, Attribute.findMention?_of_isMention hstart]
    rfl
  · rw [read_behind hnone, h]
    rfl

/-- An argument list with the name of the directive as a part of another word. -/
theorem read_writtenAll_append_marker :
    read "Mark" ("@a(\"b@Marker\") @c " ++ "@Mark class Recipe") =
      .ok ⟨⟨"Mark", []⟩, ⟨.classType, "Recipe"⟩⟩ := by
  have hblank : ∀ c ∈ ([' '] : Text), c.isBlank := by decide
  let listed : WrittenAttribute :=
    ⟨"a", some ⟨[], ['"', 'b', '@', 'M', 'a', 'r', 'k', 'e', 'r', '"'], by simp,
      by repeat (first | exact .nil | refine .cons rfl ?_)⟩, [' '], by decide, by simp, hblank⟩
  let bare : WrittenAttribute := ⟨"c", none, [' '], by decide, by simp, hblank⟩
  have hread : read "Mark" "@Mark class Recipe" = .ok ⟨⟨"Mark", []⟩, ⟨.classType, "Recipe"⟩⟩ := by
    decide +kernel
  have hnames : ∀ passed ∈ [listed, bare], passed.name ≠ "Mark" := by
    rintro passed hpassed
    rcases List.mem_cons.1 hpassed with rfl | hpassed
    · show ("a" : Text) ≠ "Mark"
      decide
    · rw [List.mem_singleton.1 hpassed]
      show ("c" : Text) ≠ "Mark"
      decide
  refine (read_writtenAll_append (by decide) (by decide) hread [listed, bare] hnames).2 ?_
  intro passed hpassed list hlist
  rcases List.mem_cons.1 hpassed with rfl | hpassed
  · cases hlist
    show Attribute.findMention? "Mark" ['"', 'b', '@', 'M', 'a', 'r', 'k', 'e', 'r', '"'] = none
    decide
  · rw [List.mem_singleton.1 hpassed] at hlist
    cases hlist

/-- A mention of the directive in a string of an attribute before it is taken for the directive. -/
theorem read_writtenAll_append_string :
    ∃ (attributes : List WrittenAttribute) (text : Text), text =
      "@UsefulClass class Recipe \x7b\x7d" ∧
      WrittenAttribute.writtenAll attributes =
        "@available(*, message: \"use @UsefulClass here\") " ∧
      (∀ passed ∈ attributes, passed.name ≠ "UsefulClass") ∧
      read "UsefulClass" text = .ok ⟨⟨"UsefulClass", []⟩, ⟨.classType, "Recipe"⟩⟩ ∧
      read "UsefulClass" (WrittenAttribute.writtenAll attributes ++ text) =
        .error ⟨.noDeclaration, 41⟩ := by
  have hblank : ∀ c ∈ ([' '] : Text), c.isBlank := by decide
  let listed : WrittenAttribute :=
    ⟨"available", some ⟨[], ['*', ',', ' ', 'm', 'e', 's', 's', 'a', 'g', 'e', ':', ' ', '"',
      'u', 's', 'e',
        ' ', '@', 'U', 's', 'e', 'f', 'u', 'l', 'C', 'l', 'a', 's', 's', ' ', 'h', 'e', 'r', 'e',
          '"'], by simp,
      by repeat (first | exact .nil | refine .cons rfl ?_)⟩, [' '], by decide, by simp, hblank⟩
  have hwritten : WrittenAttribute.writtenAll [listed] =
      "@available(*, message: \"use @UsefulClass here\") " := rfl
  refine ⟨[listed], _, rfl, hwritten, ?_, by decide +kernel, ?_⟩
  · intro passed hpassed
    rw [List.mem_singleton.1 hpassed]
    show ("available" : Text) ≠ "UsefulClass"
    decide
  · rw [hwritten]
    decide +kernel

end Snippet

end MemberSynthesis
