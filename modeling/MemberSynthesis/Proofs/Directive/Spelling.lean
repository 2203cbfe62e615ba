import MemberSynthesis.Proofs.Directive.Descriptor

/-!
# The grammar of descriptors

A descriptor is read by cutting it at its first colon with a space behind it, trimming both parts,
taking off the mark of an optional type and testing what is left. The grammar says the same without
a procedure: `Descriptor.Describes` lists the parts that are written one after the other, and
`SpellsType` says which types there are, unit by unit.

**A descriptor describes a field just when the grammar has it** (`field?_eq_some_iff`), and so its
parts are unique, although a type may hold the separator itself (`Map: Value`). The first colon with
a space behind it is the right one because none can stand before it (`cut?_append`), and a mark is
never taken for a part of the type because types hold no question mark.

Blanks are where the two readings could part. The grammar allows them in five places, around each of
the parts, and any number in each; the procedure trims twice, and once more before the mark. That
this comes to the same needs a type that ends with no blank, which is why `Describes` asks for one:
without it, the blanks behind a type would be both a part of it and not.

What is accepted is then written again (`written`) with a single space behind the colon and nowhere
else, and read as the same field. That is the round trip that the source of a schema relies on.
-/

set_option autoImplicit false

namespace MemberSynthesis

namespace Descriptor

/-! ## Types

The test of a type is a recursion with a flag, which says whether a space may come next. The grammar
has no flag: a space belongs to the comma or the colon before it. -/

/-- How the spelling of a type goes on: word characters, dots and brackets, and commas and colons,
each possibly with a single space behind it. Brackets need not match. -/
inductive ContinuesType : Text → Prop
  | nil : ContinuesType []
  | part {c : CodePoint} {rest : Text} :
    c.isWord ∨ c ∈ (['.', '<', '>', '[', ']', '(', ')'] : Text) → ContinuesType rest →
    ContinuesType (c :: rest)
  | mark {c : CodePoint} {rest : Text} :
    c ∈ ([':', ','] : Text) → ContinuesType rest → ContinuesType (c :: rest)
  | spaced {c : CodePoint} {rest : Text} :
    c ∈ ([':', ','] : Text) → ContinuesType rest →
    ContinuesType (c :: CodePoint.scalar ' ' :: rest)

/-- The spelling of a type starts with a letter, an underscore or an opening bracket, round or
square. -/
inductive SpellsType : Text → Prop
  | start {c : CodePoint} {rest : Text} :
    c.isIdentifierStart ∨ c ∈ (['[', '('] : Text) → ContinuesType rest → SpellsType (c :: rest)

theorem isTypePart_iff {c : CodePoint} :
    isTypePart c ↔ c.isWord ∨ c ∈ (['.', '<', '>', '[', ']', '(', ')'] : Text) := by
  simp [isTypePart, or_assoc]

theorem isTypeStart_iff {c : CodePoint} :
    isTypeStart c ↔ c.isIdentifierStart ∨ c ∈ (['[', '('] : Text) := by
  simp [isTypeStart, or_assoc]

/-- Only a space minds what stands before it. For any other code point the flag makes no
difference. -/
theorem isTypeRest_of_ne_space {c : CodePoint} {rest : Text} (hc : c ≠ ' ') (mayBreak : Bool) :
    isTypeRest mayBreak (c :: rest) = isTypeRest false (c :: rest) := by
  rw [isTypeRest, isTypeRest, if_neg hc, if_neg hc]

theorem continuesType_of_isTypeRest : ∀ {text : Text}, isTypeRest false text → ContinuesType text
  | [], _ => .nil
  | c :: rest, h => by
    rw [isTypeRest] at h
    split at h
    · cases h
    · split at h
      · rename_i hmark
        have hc : c ∈ ([':', ','] : Text) := by
          rcases hmark with rfl | rfl <;> decide
        cases rest with
        | nil => exact .mark hc .nil
        | cons d more =>
          -- A space belongs to the mark before it.
          by_cases hspace : d = ' '
          · subst hspace
            exact .spaced hc (continuesType_of_isTypeRest h)
          · rw [isTypeRest_of_ne_space hspace] at h
            exact .mark hc (continuesType_of_isTypeRest h)
      · rw [Bool.and_eq_true, isTypePart_iff] at h
        exact .part h.1 (continuesType_of_isTypeRest h.2)

theorem isTypeRest_of_continuesType {text : Text} (h : ContinuesType text) :
    ∀ mayBreak, isTypeRest mayBreak text := by
  -- Behind a colon or a comma the flag is set, whatever it was.
  have hmark : ∀ {c : CodePoint} {rest : Text}, c ∈ ([':', ','] : Text) → ∀ mayBreak,
      isTypeRest mayBreak (c :: rest) = isTypeRest true rest := by
    intro c rest hc mayBreak
    rw [List.mem_cons, List.mem_singleton] at hc
    rcases hc with rfl | rfl <;> rfl
  induction h with
  | nil => exact fun _ => rfl
  | @part c rest hpart _ ih =>
    intro mayBreak
    have hc : isTypePart c := isTypePart_iff.2 hpart
    have hnone : ∀ d ∈ ([' ', ',', ':'] : Text), isTypePart d = false := by decide
    have hother : ∀ d ∈ ([' ', ',', ':'] : Text), c ≠ d := by
      rintro d hd rfl
      rw [hnone c hd] at hc
      cases hc
    rw [isTypeRest, if_neg (hother ' ' (by decide)),
      if_neg (not_or.2 ⟨hother ',' (by decide), hother ':' (by decide)⟩), hc, Bool.true_and]
    exact ih false
  | mark hc _ ih =>
    intro mayBreak
    rw [hmark hc]
    exact ih true
  | spaced hc _ ih =>
    intro mayBreak
    rw [hmark hc]
    exact ih false

theorem isType_iff {text : Text} : isType text ↔ SpellsType text := by
  cases text with
  | nil =>
    constructor
    · intro h
      cases h
    · intro h
      cases h
  | cons c rest =>
    rw [isType, Bool.and_eq_true, isTypeStart_iff]
    constructor
    · rintro ⟨hc, hrest⟩
      exact .start hc (continuesType_of_isTypeRest hrest)
    · rintro ⟨hc, hrest⟩
      exact ⟨hc, isTypeRest_of_continuesType hrest false⟩

/-! ## The parts of a descriptor

Name, separator, type and mark, as they stand in the text. Each step of the procedure is one
equation on a text of that form. -/

/-- The descriptor is the name, a colon and a space, the type and the mark, with blanks around each
of them. The mark is there or not, and is no part of the type. -/
structure Describes (descriptor name type mark : Text) : Prop where
  named : name.isIdentifier
  typed : SpellsType type
  /-- The blanks after a type are no part of it. -/
  trimmed : ∀ c ∈ type.getLast?, c.isBlank = false
  marked : mark = [] ∨ mark = "?"
  written : ∃ b₁ b₂ b₃ b₄ b₅ : Text, (∀ c ∈ b₁ ++ b₂ ++ b₃ ++ b₄ ++ b₅, c.isBlank) ∧
    descriptor = b₁ ++ name ++ b₂ ++ ": " ++ b₃ ++ type ++ b₄ ++ mark ++ b₅

/-- A text without colons is cut off at the first colon with a space behind it, whatever stands
there. A name holds none. -/
theorem cut?_append {left right : Text} (h : CodePoint.scalar ':' ∉ left) :
    cut? (left ++ (": " ++ right)) = some (left, right) := by
  induction left with
  | nil => rfl
  | cons c more ih =>
    rw [List.mem_cons, not_or] at h
    rw [List.cons_append, cut?, if_neg fun hc => h.1 hc.1.symm, ih h.2]
    rfl

theorem append_of_cut? {text left right : Text} (h : cut? text = some (left, right)) :
    text = left ++ (": " ++ right) := by
  induction text generalizing left with
  | nil => cases h
  | cons c rest ih =>
    rw [cut?] at h
    split at h
    · rename_i hcolon
      obtain ⟨more, hrest⟩ := List.head?_eq_some_iff.1 hcolon.2
      cases h
      rw [hcolon.1, hrest]
      rfl
    · obtain ⟨⟨before, after⟩, hcut, hparts⟩ := Option.map_eq_some_iff.1 h
      cases hparts
      rw [ih hcut]
      rfl

section Trimmed

variable {type blanks : Text}

theorem isTrimmed_of_isType (htype : isType type) (hlast : ∀ c ∈ type.getLast?, c.isBlank = false) :
    type.IsTrimmed := by
  have hne := ne_nil_of_isType htype
  constructor
  · obtain ⟨c, more, rfl⟩ := List.exists_cons_of_ne_nil hne
    refine ⟨c, more, rfl, ?_⟩
    rw [isType, Bool.and_eq_true, isTypeStart_iff] at htype
    rcases htype.1 with hstart | hbracket
    · exact CodePoint.isBlank_eq_false_of_isWord (CodePoint.isWord_of_isIdentifierStart hstart)
    · rw [List.mem_cons, List.mem_singleton] at hbracket
      rcases hbracket with rfl | rfl <;> rfl
  · exact ⟨_, _, (List.dropLast_concat_getLast hne).symm,
      hlast _ (List.getLast?_eq_some_getLast hne)⟩

/-- A type is not taken for one with a mark, for its last code point is no question mark. -/
theorem unmark_of_isType (htype : isType type) : unmark type = (type, false) := by
  have hmark : type.getLast? ≠ some (CodePoint.scalar '?') := fun hlast =>
    not_mem_of_isType htype (by decide) (List.mem_of_getLast? hlast)
  rw [unmark, if_neg hmark]

/-- The mark is taken off together with the blanks before it. What is left is the type as it was
written. -/
theorem unmark_append (htype : type.IsTrimmed) (hblanks : ∀ c ∈ blanks, c.isBlank) :
    unmark (type ++ blanks ++ "?") = (type, true) := by
  have hlast : (type ++ blanks ++ ("?" : Text)).getLast? = some (CodePoint.scalar '?') :=
    List.getLast?_concat
  have hdrop : (type ++ blanks ++ ("?" : Text)).dropLast = type ++ blanks := List.dropLast_concat
  rw [unmark, if_pos hlast, hdrop, htype.trimEnd_append hblanks]

end Trimmed

/-- A text is the type in it, blanks and the mark, if it has one. The converse of the two lemmas
before, for a text that is only known to have been taken apart. -/
theorem exists_mark_of_unmark {text type : Text} {nullable : Bool}
    (h : unmark text = (type, nullable)) :
    ∃ blanks mark : Text, (∀ c ∈ blanks, c.isBlank) ∧ (mark = [] ∨ mark = "?") ∧
      nullable = decide (mark = "?") ∧ text = type ++ (blanks ++ mark) := by
  rw [unmark] at h
  split at h
  · rename_i hlast
    obtain ⟨before, rfl⟩ := List.getLast?_eq_some_iff.1 hlast
    rw [List.dropLast_concat] at h
    cases h
    obtain ⟨blanks, hblanks, htype⟩ := Text.exists_eq_trimEnd_append before
    refine ⟨blanks, "?", hblanks, .inr rfl, rfl, ?_⟩
    rw [← List.append_assoc, ← htype]
    rfl
  · cases h
    exact ⟨[], [], fun c hc => absurd hc List.not_mem_nil, .inl rfl, rfl, by simp⟩

/-! ## Reading the parts -/

variable {descriptor name type mark : Text}

theorem describes_of_field? {field : Field} (h : field? descriptor = some field) :
    ∃ mark, Describes descriptor field.name field.typeName mark ∧
      field.nullable = decide (mark = "?") := by
  obtain ⟨⟨left, right⟩, hcut, h⟩ := Option.bind_eq_some_iff.1 h
  have hlast : ∀ c ∈ (unmark right.trim).1.getLast?, c.isBlank = false :=
    fun c hc => isBlank_of_getLast?_unmark hc
  dsimp only at h
  cases hunmark : unmark right.trim with
  | mk type nullable =>
    rw [hunmark] at h hlast
    split at h
    · rename_i hspelled
      cases h
      obtain ⟨b₁, b₂, hleft, -, hb₁, hb₂⟩ := left.exists_eq_append_trim
      obtain ⟨b₃, b₅, hright, -, hb₃, hb₅⟩ := right.exists_eq_append_trim
      obtain ⟨b₄, mark, hb₄, hmark, hnullable, htype⟩ := exists_mark_of_unmark hunmark
      refine ⟨mark, ⟨hspelled.1, isType_iff.1 hspelled.2, hlast, hmark, b₁, b₂, b₃, b₄, b₅, ?_, ?_⟩,
        hnullable⟩
      · simp only [List.forall_mem_append]
        exact ⟨⟨⟨⟨hb₁, hb₂⟩, hb₃⟩, hb₄⟩, hb₅⟩
      · calc descriptor = left ++ (": " ++ right) := append_of_cut? hcut
          _ = b₁ ++ (left.trim ++ b₂) ++ (": " ++ (b₃ ++ (type ++ (b₄ ++ mark) ++ b₅))) := by
            rw [← hleft, ← htype, ← hright]
          _ = b₁ ++ left.trim ++ b₂ ++ ": " ++ b₃ ++ type ++ b₄ ++ mark ++ b₅ := by
            simp only [List.append_assoc]
    · cases h

/-- The type and its mark are what is left between the blanks. Three stretches of them are around
these two, and all are taken off. -/
theorem unmark_trim {b₃ b₄ b₅ : Text} (h : Describes descriptor name type mark)
    (hb₃ : ∀ c ∈ b₃, c.isBlank) (hb₄ : ∀ c ∈ b₄, c.isBlank) (hb₅ : ∀ c ∈ b₅, c.isBlank) :
    unmark (Text.trim (b₃ ++ (type ++ b₄ ++ mark ++ b₅))) = (type, decide (mark = "?")) := by
  have htype := isType_iff.2 h.typed
  have htrimmed := isTrimmed_of_isType htype h.trimmed
  rcases h.marked with rfl | rfl
  · rw [List.append_nil, List.append_assoc, htrimmed.trim_append hb₃
      (List.forall_mem_append.2 ⟨hb₄, hb₅⟩), unmark_of_isType htype]
    rfl
  · have hmarked : Text.IsTrimmed (type ++ b₄ ++ "?") := by
      obtain ⟨c, more, rfl, hc⟩ := htrimmed.first
      exact ⟨⟨c, more ++ b₄ ++ "?", rfl, hc⟩, ⟨_, '?', rfl, rfl⟩⟩
    rw [hmarked.trim_append hb₃ hb₅, unmark_append htrimmed hb₄]
    rfl

theorem field?_of_describes (h : Describes descriptor name type mark) :
    field? descriptor = some ⟨name, type, decide (mark = "?"), false⟩ := by
  obtain ⟨b₁, b₂, b₃, b₄, b₅, hblank, rfl⟩ := h.written
  simp only [List.forall_mem_append] at hblank
  obtain ⟨⟨⟨⟨hb₁, hb₂⟩, hb₃⟩, hb₄⟩, hb₅⟩ := hblank
  have hname : Text.trim (b₁ ++ (name ++ b₂)) = name :=
    (Text.isTrimmed_of_isIdentifier h.named).trim_append hb₁ hb₂
  -- The separator cannot stand any earlier.
  have hcolon : CodePoint.scalar ':' ∉ b₁ ++ (name ++ b₂) := by
    have hnot : ∀ b : Text, (∀ c ∈ b, c.isBlank) → CodePoint.scalar ':' ∉ b := fun b hb hc =>
      absurd (hb _ hc) (by decide)
    rw [List.mem_append, List.mem_append, not_or, not_or]
    exact ⟨hnot b₁ hb₁, Text.not_mem_of_isIdentifier h.named (by decide), hnot b₂ hb₂⟩
  have hcut : cut? (b₁ ++ name ++ b₂ ++ ": " ++ b₃ ++ type ++ b₄ ++ mark ++ b₅) =
      some (b₁ ++ (name ++ b₂), b₃ ++ (type ++ b₄ ++ mark ++ b₅)) := by
    rw [← cut?_append hcolon]
    simp only [List.append_assoc]
  have hspelled : name.isIdentifier = true ∧ isType type = true := ⟨h.named, isType_iff.2 h.typed⟩
  rw [field?, hcut, Option.bind_eq_bind, Option.bind_some]
  dsimp only
  rw [hname, unmark_trim h hb₃ hb₄ hb₅, if_pos hspelled]
  rfl

/-- **A descriptor describes a field just when the grammar has it**, and the field is optional just
when it has the mark. Described fields are never computed ones. -/
theorem field?_eq_some_iff {field : Field} :
    field? descriptor = some field ↔
      ∃ mark, Describes descriptor field.name field.typeName mark ∧
        field.nullable = decide (mark = "?") ∧ field.readOnly = false := by
  constructor
  · intro h
    obtain ⟨mark, hdescribes, hnullable⟩ := describes_of_field? h
    exact ⟨mark, hdescribes, hnullable, (isSpelled_of_field? h).2⟩
  · rintro ⟨mark, hdescribes, hnullable, hwritable⟩
    rw [field?_of_describes hdescribes, ← hnullable, ← hwritable]

/-- The parts of a descriptor are unique. That is not seen on the grammar, but on the field that the
descriptor is read as. -/
theorem Describes.unique {name' type' mark' : Text} (h : Describes descriptor name type mark)
    (h' : Describes descriptor name' type' mark') : name = name' ∧ type = type' ∧ mark = mark' := by
  have hsame := (field?_of_describes h).symm.trans (field?_of_describes h')
  simp only [Option.some.injEq, Field.mk.injEq, and_true, decide_eq_decide] at hsame
  obtain ⟨rfl, rfl, hmark⟩ := hsame
  refine ⟨rfl, rfl, ?_⟩
  rcases h.marked with rfl | rfl
  · rcases h'.marked with rfl | rfl
    · rfl
    · cases hmark.2 rfl
  · exact (hmark.1 rfl).symm

/-! ## Writing a field -/

/-- The descriptor of a field, as short as it can be: the name, the separator, the type, and the
mark if the field is optional. -/
def written (field : Field) : Text := field.name ++ ": " ++ field.writtenType

theorem describes_written {field : Field} (h : field.IsSpelled) :
    Describes (written field) field.name field.typeName (if field.nullable then "?" else []) := by
  refine ⟨h.name, isType_iff.1 h.typeName, h.trimmed, ?_, [], [], [], [], [], by simp, ?_⟩
  · cases field.nullable with
    | false => exact .inl rfl
    | true => exact .inr rfl
  · rw [written, Field.writtenType]
    cases field.nullable with
    | false => simp
    | true => simp

/-- **The descriptor of a field describes the field.** It must be spelled, and must not be the
computed one, which no descriptor gives. -/
theorem field?_written {field : Field} (h : field.IsSpelled) (hwritable : field.readOnly = false) :
    field? (written field) = some field := by
  refine field?_eq_some_iff.2 ⟨_, describes_written h, ?_, hwritable⟩
  cases field.nullable with
  | false => rfl
  | true => rfl

end Descriptor

namespace Directive

/-- **A descriptor is accepted just when the grammar has it.** Its parts are then unique, and they
are those of the field; otherwise the descriptor is malformed, and never is a field with faults made
of it. The field that comes out can be written as a descriptor, which is accepted as the same
field. -/
theorem readField_iff_describes (descriptor : Text) :
    (∀ field, readField descriptor = .ok field ↔
      ∃ mark, Descriptor.Describes descriptor field.name field.typeName mark ∧
        field.nullable = decide (mark = "?") ∧ field.readOnly = false) ∧
    (∀ name type mark name' type' mark', Descriptor.Describes descriptor name type mark →
      Descriptor.Describes descriptor name' type' mark' → name = name' ∧ type = type' ∧
        mark = mark') ∧
    ((∀ name type mark, ¬ Descriptor.Describes descriptor name type mark) →
      readField descriptor = .error (.mistake (.malformedDescriptor descriptor))) ∧
    ∀ field, readField descriptor = .ok field →
      readField (field.name ++ ": " ++ field.writtenType) = .ok field := by
  refine ⟨fun field => readField_eq_ok_iff.trans Descriptor.field?_eq_some_iff,
    fun _ _ _ _ _ _ h h' => h.unique h', ?_, ?_⟩
  · intro hnone
    refine readField_eq_error_iff.2 ⟨?_, rfl⟩
    rw [Option.eq_none_iff_forall_ne_some]
    intro field hfield
    obtain ⟨mark, hdescribes, _⟩ := Descriptor.field?_eq_some_iff.1 hfield
    exact hnone _ _ _ hdescribes
  · intro field hfield
    obtain ⟨hspelled, hwritable⟩ := Descriptor.isSpelled_of_field? (readField_eq_ok_iff.1 hfield)
    exact readField_eq_ok_iff.2 (Descriptor.field?_written hspelled hwritable)

/-- A type with the separator and commas in it, blanks around every part, and a descriptor in which
no space follows the colon. -/
theorem readField_iff_describes_entries :
    Descriptor.Describes " entries :  [Key: Value, (Int)] ?\t" "entries" "[Key: Value, (Int)]" "?" ∧
      (∀ name type mark,
        Descriptor.Describes " entries :  [Key: Value, (Int)] ?\t" name type mark →
        "entries" = name ∧ "[Key: Value, (Int)]" = type ∧ "?" = mark) ∧
      readField "entries: [Key: Value, (Int)]?" =
        .ok ⟨"entries", "[Key: Value, (Int)]", true, false⟩ ∧
      (∀ name type mark, ¬ Descriptor.Describes "entries:Int" name type mark) ∧
      readField "entries:Int" = .error (.mistake (.malformedDescriptor "entries:Int")) := by
  obtain ⟨hiff, hunique, -, hwritten⟩ :=
    readField_iff_describes " entries :  [Key: Value, (Int)] ?\t"
  have hread : readField " entries :  [Key: Value, (Int)] ?\t" =
      .ok ⟨"entries", "[Key: Value, (Int)]", true, false⟩ := by decide +kernel
  obtain ⟨mark, hdescribes, hnullable, -⟩ := (hiff _).1 hread
  obtain rfl : mark = "?" := of_decide_eq_true hnullable.symm
  have hnone : ∀ name type mark, ¬ Descriptor.Describes "entries:Int" name type mark := by
    intro name type mark h
    cases Descriptor.field?_of_describes h
  exact ⟨hdescribes, fun _ _ _ h => hunique _ _ _ _ _ _ hdescribes h, hwritten _ hread, hnone,
    (readField_iff_describes "entries:Int").2.2.1 hnone⟩

end Directive

end MemberSynthesis
