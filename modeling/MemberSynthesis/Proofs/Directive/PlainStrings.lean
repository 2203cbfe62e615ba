import MemberSynthesis.Directive.PlainString
import MemberSynthesis.Proofs.Outcome

/-!
# Arguments made of plain strings

Two of the three arguments must be arrays of plain strings, and the third one a plain string; plain
means without interpolation. What the directive accepts as the value of an argument is said here
without the scan that finds it out: an array is accepted just when it is the array of some texts,
each as a plain string, and then those texts are what is read from it (`plainStrings_eq_ok_iff`). If
it is not, the mistake is the one that `ArrayMistake` names: no array at all, or the first element
that is no plain string.

Both equivalences determine the outcome for every expression, an array within an array or a raw text
included. The elements are counted from zero, and the number that a mistake gives is that of the
elements before it, all of which are plain strings.
-/

set_option autoImplicit false

namespace MemberSynthesis

namespace Expression

/-- The plain string with a content. -/
def plain (value : Text) : Expression := string value false

theorem plainString?_eq_some_iff {e : Expression} {value : Text} :
    e.plainString? = some value ↔ e = plain value := by
  cases e with
  | string v interpolated => cases interpolated <;> simp [plainString?, plain]
  | array elements => simp [plainString?, plain]
  | raw text => simp [plainString?, plain]

/-- The elements are read just when all of them are plain strings. The index of the first one only
matters to the mistake, so any will do. -/
theorem plainElements_eq_ok_iff {label : Text} {elements : List Expression} :
    ∀ {index : Nat} {values : List Text},
      plainElements label index elements = .ok values ↔ elements = values.map plain := by
  induction elements with
  | nil =>
    intro index values
    cases values <;> simp [plainElements]
  | cons element more ih =>
    intro index values
    cases hplain : element.plainString? with
    | none =>
      have hne : ∀ value, element ≠ plain value := by
        intro value h
        rw [plainString?_eq_some_iff.2 h] at hplain
        cases hplain
      cases values <;> simp [plainElements, hplain, hne]
    | some value =>
      rw [plainString?_eq_some_iff] at hplain
      subst hplain
      have hread : (plain value).plainString? = some value := plainString?_eq_some_iff.2 rfl
      simp only [plainElements, hread]
      rw [Outcome.bind_eq_ok_iff]
      constructor
      · rintro ⟨rest, hrest, h⟩
        cases h
        rw [ih.1 hrest, List.map_cons]
      · intro h
        obtain ⟨v, rest, rfl, hv, hrest⟩ := List.map_eq_cons_iff.1 h.symm
        cases hv
        exact ⟨rest, ih.2 hrest.symm, rfl⟩

theorem plainStrings_eq_ok_iff {label : Text} {e : Expression} {values : List Text} :
    e.plainStrings label = .ok values ↔ e = array (values.map plain) := by
  cases e with
  | array elements => simp [plainStrings, plainElements_eq_ok_iff]
  | string v interpolated => simp [plainStrings]
  | raw text => simp [plainStrings]

/-- What is wrong with an argument that has to be an array of plain strings: it is no array, or an
element is no plain string, and then the first such element is named by its index. The label is part
of the mistake. -/
inductive ArrayMistake (label : Text) : Expression → Mistake → Prop where
  | noArray {e : Expression} : (∀ elements, e ≠ array elements) →
      ArrayMistake label e (.arrayExpected label)
  | element {elements before : List Expression} {e : Expression} :
      Outcome.IsFirst (fun _ element => ∀ value, element ≠ plain value) elements before e →
      ArrayMistake label (array elements) (.plainElementExpected before.length label)

theorem plainElements_eq_error_iff {label : Text} {elements : List Expression} {mistake : Mistake} :
    ∀ {index : Nat}, plainElements label index elements = .error mistake ↔
      ∃ before e,
        Outcome.IsFirst (fun _ element => ∀ value, element ≠ plain value) elements before e ∧
          mistake = .plainElementExpected (index + before.length) label := by
  induction elements with
  | nil => simp [plainElements, Outcome.not_isFirst_nil]
  | cons element more ih =>
    intro index
    simp only [Outcome.isFirst_cons_iff]
    cases hplain : element.plainString? with
    | none =>
      -- The first element is no plain string, and so it is the first one that is not.
      have hne : ∀ value, element ≠ plain value := by
        intro value h
        rw [plainString?_eq_some_iff.2 h] at hplain
        cases hplain
      simp only [plainElements, hplain]
      constructor
      · intro h
        cases h
        exact ⟨[], element, .inl ⟨rfl, rfl, hne⟩, rfl⟩
      · rintro ⟨before, e, ⟨rfl, _, _⟩ | ⟨hpassed, _⟩, rfl⟩
        · rfl
        · exact absurd hne hpassed
    | some value =>
      -- It is one, and the first that is not stands behind it, with an index one greater.
      have hpassed : ¬ ∀ value, element ≠ plain value := fun h =>
        h value (plainString?_eq_some_iff.1 hplain)
      simp only [plainElements, hplain]
      rw [Outcome.bind_eq_error_iff]
      constructor
      · rintro (h | ⟨values, _, h⟩)
        · obtain ⟨before, e, hfirst, rfl⟩ := ih.1 h
          refine ⟨element :: before, e, .inr ⟨hpassed, before, rfl, hfirst⟩, ?_⟩
          rw [List.length_cons, Nat.add_right_comm, Nat.add_assoc]
        · cases h
      · rintro ⟨before, e, ⟨_, _, h⟩ | ⟨_, before, rfl, hfirst⟩, rfl⟩
        · exact absurd h hpassed
        · refine .inl (ih.2 ⟨before, e, hfirst, ?_⟩)
          rw [List.length_cons, Nat.add_right_comm, Nat.add_assoc]

theorem plainStrings_eq_error_iff {label : Text} {e : Expression} {mistake : Mistake} :
    e.plainStrings label = .error mistake ↔ ArrayMistake label e mistake := by
  constructor
  · intro h
    cases e with
    | array elements =>
      obtain ⟨before, e, hfirst, rfl⟩ := plainElements_eq_error_iff.1 h
      rw [Nat.zero_add]
      exact .element hfirst
    | string value interpolated =>
      cases h
      exact .noArray fun elements h => by cases h
    | raw text =>
      cases h
      exact .noArray fun elements h => by cases h
  · intro h
    cases h with
    | noArray hne =>
      cases e with
      | array elements => exact absurd rfl (hne elements)
      | string value interpolated => rfl
      | raw text => rfl
    | element hfirst =>
      refine plainElements_eq_error_iff.2 ⟨_, _, hfirst, ?_⟩
      rw [Nat.zero_add]

theorem plainString_eq_ok_iff {label : Text} {e : Expression} {value : Text} :
    e.plainString label = .ok value ↔ e = plain value := by
  rw [← plainString?_eq_some_iff, plainString]
  cases e.plainString? <;> simp

theorem plainString_eq_error_iff {label : Text} {e : Expression} {mistake : Mistake} :
    e.plainString label = .error mistake ↔
      (∀ value, e ≠ plain value) ∧ mistake = .plainStringExpected label := by
  simp only [ne_eq, ← plainString?_eq_some_iff, plainString]
  cases e.plainString? <;> simp [eq_comm]

theorem map_plain_injective : Function.Injective (List.map plain) :=
  List.map_injective_iff.2 fun a b h => by
    cases h
    rfl

end Expression

end MemberSynthesis
