import MemberSynthesis.Directive.Interpretation
import MemberSynthesis.Proofs.Text.Basic

/-!
# What a descriptor can describe

A field that comes from a descriptor is **spelled** (`Field.IsSpelled`): its name is an identifier
and its type is a spelling of a type that ends with no blank. Everything the generated code relies
on follows from these tests, code point by code point. They allow so little (`isTypePoint`) that a
name or a type can break no line, open no string literal and hold no mark of an optional type; in
particular a field that was described has no fault of its own (`readField_eq_ok_iff`).

What a type is *not* tested for is whether its brackets match, or whether it names anything. A text
such as `a: Int, b: String` as the type of one field passes, and that is where the generated
parameter lists can go wrong; nothing in this module rules it out.

The grammar of descriptors, which says when one is accepted, is in a module of its own. Here only
its consequences are drawn, for everyone who writes a field into code.
-/

set_option autoImplicit false

namespace MemberSynthesis

/-- The name of the field is an identifier, and its type is spelled like one and ends with no
blank. -/
structure Field.IsSpelled (field : Field) : Prop where
  name : field.name.isIdentifier
  typeName : Descriptor.isType field.typeName
  trimmed : ∀ c ∈ field.typeName.getLast?, c.isBlank = false

/-! ## Types, code point by code point

A type is made of word code points, brackets, dots, commas, colons and spaces. One test for each
code point is enough to see what can not stand in a type, and the callers use it with a line feed, a
quote, a brace or a question mark. -/

namespace Descriptor

/-- Whether a code point can stand in a type at all. -/
def isTypePoint (c : CodePoint) : Bool := isTypePart c || c = ' ' || c = ',' || c = ':'

theorem ne_nil_of_isType {text : Text} (h : isType text) : text ≠ [] := by
  rintro rfl
  cases h

theorem isTypePoint_of_mem_rest {text : Text} {c : CodePoint} (hc : c ∈ text) :
    ∀ {mayBreak : Bool}, isTypeRest mayBreak text → isTypePoint c := by
  induction text with
  | nil => cases hc
  | cons first rest ih =>
    intro mayBreak h
    rw [isTypeRest] at h
    split at h
    · rename_i hspace
      rw [Bool.and_eq_true] at h
      rcases List.mem_cons.1 hc with rfl | hc
      · simp [isTypePoint, hspace]
      · exact ih hc h.2
    · split at h
      · rename_i hbreak
        rcases List.mem_cons.1 hc with rfl | hc
        · rcases hbreak with rfl | rfl <;> rfl
        · exact ih hc h
      · rw [Bool.and_eq_true] at h
        rcases List.mem_cons.1 hc with rfl | hc
        · simp [isTypePoint, h.1]
        · exact ih hc h.2

theorem isTypePart_of_isTypeStart {c : CodePoint} (h : isTypeStart c) : isTypePart c := by
  simp only [isTypeStart, Bool.or_eq_true, decide_eq_true_eq] at h
  rcases h with (h | rfl) | rfl
  · simp [isTypePart, CodePoint.isWord_of_isIdentifierStart h]
  · rfl
  · rfl

theorem isTypePoint_of_mem {text : Text} (h : isType text) {c : CodePoint} (hc : c ∈ text) :
    isTypePoint c := by
  cases text with
  | nil => cases hc
  | cons first rest =>
    rw [isType, Bool.and_eq_true] at h
    rcases List.mem_cons.1 hc with rfl | hc
    · simp [isTypePoint, isTypePart_of_isTypeStart h.1]
    · exact isTypePoint_of_mem_rest hc h.2

theorem not_mem_of_isType {text : Text} (h : isType text) {c : CodePoint}
    (hc : isTypePoint c = false) : c ∉ text := by
  intro hmem
  rw [isTypePoint_of_mem h hmem] at hc
  cases hc

/-! ## The field of a descriptor -/

theorem isBlank_of_getLast?_unmark {text : Text} {c : CodePoint}
    (h : (unmark text.trim).1.getLast? = some c) : c.isBlank = false := by
  rw [unmark] at h
  split at h
  · exact Text.eq_false_of_getLast?_dropEndWhile h
  · exact Text.eq_false_of_getLast?_dropEndWhile h

theorem isSpelled_of_field? {descriptor : Text} {field : Field}
    (h : field? descriptor = some field) : field.IsSpelled ∧ field.readOnly = false := by
  obtain ⟨⟨left, right⟩, _, h⟩ := Option.bind_eq_some_iff.1 h
  dsimp only at h
  split at h
  · rename_i hspelled
    cases h
    exact ⟨⟨hspelled.1, hspelled.2, fun c hc => isBlank_of_getLast?_unmark hc⟩, rfl⟩
  · cases h

end Descriptor

/-- A field that is spelled has no fault: neither of its names is empty, and its type holds no
question mark. -/
theorem Field.faults_of_isSpelled {field : Field} (h : field.IsSpelled) : field.faults = [] := by
  have hmark : CodePoint.scalar '?' ∉ field.typeName :=
    Descriptor.not_mem_of_isType h.typeName (by decide)
  simp [faults, nameFault?, typeNameFault?, Text.ne_nil_of_isIdentifier h.name,
    Descriptor.ne_nil_of_isType h.typeName, hmark]

namespace Directive

/-- **A descriptor is accepted just when it describes a field.** The faults of a field are tested
behind that, and there are none, so that the test never fails. -/
theorem readField_eq_ok_iff {descriptor : Text} {field : Field} :
    readField descriptor = .ok field ↔ Descriptor.field? descriptor = some field := by
  cases hfield : Descriptor.field? descriptor with
  | none => simp [readField, hfield]
  | some found =>
    have hfaults := Field.faults_of_isSpelled (Descriptor.isSpelled_of_field? hfield).1
    simp [readField, hfield, hfaults]

/-- A descriptor that is not accepted is malformed; no field with faults comes of it. The mistake
quotes the descriptor as it was given. -/
theorem readField_eq_error_iff {descriptor : Text} {rejection : Rejection} :
    readField descriptor = .error rejection ↔
      Descriptor.field? descriptor = none ∧
        rejection = .mistake (.malformedDescriptor descriptor) := by
  cases hfield : Descriptor.field? descriptor with
  | none => simp [readField, hfield, eq_comm]
  | some found => simp [readField_eq_ok_iff.2 hfield]

theorem eq_malformed_of_readField {descriptor : Text} {rejection : Rejection}
    (h : readField descriptor = .error rejection) :
    rejection = .mistake (.malformedDescriptor descriptor) :=
  (readField_eq_error_iff.1 h).2

end Directive

end MemberSynthesis
