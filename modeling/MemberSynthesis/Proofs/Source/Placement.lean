import MemberSynthesis.Proofs.Outcome
import MemberSynthesis.Source.Declaration
import MemberSynthesis.Source.Opening

/-!
# Where a fault stands

A fault names a cause and an offset. `ReadCause.StandsBetween` says what has to be found there, for
each cause: the text before the offset and the text from there on. For brackets and strings this is
more than the code point that opened them: scanned from there, the text has just this fault at its
very start. A fault that stands so is **placed** in the text (`ReadFault.IsPlacedIn`).

Readers are composed of readers of pieces, and so is the proof that their faults are placed. A
reading **is placed** in a text if all its faults are (`Reading.IsPlacedIn`), and there is one law
for each way in which readings are put together. A piece is always looked at in its place, with what
is before and after it in the whole text.
-/

set_option autoImplicit false

namespace MemberSynthesis

namespace Text

/-! ## Where items begin and end -/

/-- An item of a list, or its value after a label, starts where the text ends. -/
def StartsItem (before : Text) : Prop :=
  ∃ earlier start, before = earlier ++ [start] ∧ start ∈ (['(', '[', ',', ':'] : Text)

/-- An item of a list ends where the text starts. -/
def EndsItem (after : Text) : Prop :=
  ∃ ending later, after = ending :: later ∧ ending ∈ ([',', ')', ']'] : Text)

/-- An item of a list that is blank, from what starts it up to what ends it. -/
def EndsBlankItem (before after : Text) : Prop :=
  (∃ opened blanks, before = opened ++ blanks ∧ opened.StartsItem ∧ ∀ c ∈ blanks, c.isBlank) ∧
    after.EndsItem

theorem StartsItem.append {before : Text} (earlier : Text) (h : before.StartsItem) :
    StartsItem (earlier ++ before) := by
  obtain ⟨first, start, rfl, hstart⟩ := h
  exact ⟨earlier ++ first, start, (List.append_assoc earlier first [start]).symm, hstart⟩

end Text

/-! ## Causes and their places -/

/-- What a cause says of the text before its place and of the text from there on. No place is the
right one for a missing directive, nor for a code point past the end. -/
def ReadCause.StandsBetween (before after : Text) : ReadCause → Prop
  | .noDirective _ => False
  | .noDeclaration => Declaration.ofHead? after = none
  | .multilineString => (['"', '"', '"'] : Text) <+: after
  | .unterminatedString =>
    after.head? = some '"' ∧ after.unitEnd = .error ⟨.unterminatedString, 0⟩
  | .unbalanced closed => after.head? = some (closed.closer : CodePoint)
  | .unclosed opened =>
    after.head? = some (opened.opener : CodePoint) ∧ after.unitEnd = .error ⟨.unclosed opened, 0⟩
  | .noExpression => Text.EndsBlankItem before after
  | .invalidUnicodeEscape => ("\\u\x7b" : Text) <+: after
  | .invalidEscape escaped => (['\\', escaped] : Text) <+: after
  | .pastEnd => False

/-- The fault lies within the text, and at its offset stands what the cause says. -/
def ReadFault.IsPlacedIn (text : Text) (fault : ReadFault) : Prop :=
  ∃ before after, text = before ++ after ∧ before.length = fault.offset ∧
    fault.cause.StandsBetween before after

/-- More text in front does not change what a cause says. -/
theorem ReadCause.StandsBetween.append {cause : ReadCause} {before after : Text} (earlier : Text)
    (h : cause.StandsBetween before after) : cause.StandsBetween (earlier ++ before) after := by
  cases cause with
  | noExpression =>
    obtain ⟨⟨opened, blanks, rfl, hopened, hblanks⟩, hafter⟩ := h
    exact ⟨⟨earlier ++ opened, blanks, (List.append_assoc earlier opened blanks).symm,
      hopened.append earlier, hblanks⟩, hafter⟩
  | noDirective | noDeclaration | multilineString | unterminatedString | unbalanced | unclosed
  | invalidUnicodeEscape | invalidEscape | pastEnd => exact h

/-- A fault of a text is a fault of any longer text that ends with it. -/
theorem ReadFault.IsPlacedIn.append {text : Text} {fault : ReadFault} (earlier : Text)
    (h : fault.IsPlacedIn text) :
    ReadFault.IsPlacedIn (earlier ++ text)
      { fault with offset := earlier.length + fault.offset } := by
  obtain ⟨before, after, rfl, hoffset, hcause⟩ := h
  refine ⟨earlier ++ before, after, (List.append_assoc earlier before after).symm, ?_,
    hcause.append earlier⟩
  rw [List.length_append, hoffset]

namespace Reading

variable {α β : Type} {text : Text}

/-! ## Readings that are placed -/

/-- All faults of the reading are placed in the text. -/
def IsPlacedIn (text : Text) (reading : Reading α) : Prop :=
  ∀ fault, reading = .error fault → fault.IsPlacedIn text

theorem isPlacedIn_ok {a : α} : IsPlacedIn text (.ok a) := by
  intro fault h
  cases h

/-- One reading after another is placed if each of them is; the second one is asked only about what
the first may come to. -/
theorem IsPlacedIn.bind {first : Reading α} {next : α → Reading β} (hfirst : first.IsPlacedIn text)
    (hnext : ∀ a, first = .ok a → (next a).IsPlacedIn text) : (first >>= next).IsPlacedIn text := by
  intro fault h
  rcases Outcome.bind_eq_error_iff.1 h with h | ⟨a, ha, h⟩
  · exact hfirst fault h
  · exact hnext a ha fault h

/-- A reading for every element of a list is placed if each of them is. -/
theorem IsPlacedIn.mapM {read : α → Reading β} {xs : List α}
    (h : ∀ x ∈ xs, (read x).IsPlacedIn text) : (xs.mapM read).IsPlacedIn text := by
  intro fault hfault
  obtain ⟨x, hx, hread⟩ := Outcome.exists_of_mapM_eq_error hfault
  exact h x hx fault hread

/-- The reading of a text is placed in any longer text that ends with it. -/
theorem IsPlacedIn.moved {reading : Reading α} (h : reading.IsPlacedIn text) (before : Text) :
    (reading.moved before.length).IsPlacedIn (before ++ text) := by
  intro fault hfault
  cases reading with
  | ok a => cases hfault
  | error found =>
    cases hfault
    exact (h found rfl).append before

/-- The reading of what is left of a text is placed in the text. -/
theorem IsPlacedIn.moved_drop {reading : Reading α} {used : Nat}
    (h : reading.IsPlacedIn (text.drop used)) (hused : used ≤ text.length) :
    (reading.moved used).IsPlacedIn text := by
  have hmoved := h.moved (text.take used)
  rwa [List.length_take_of_le hused, List.take_append_drop] at hmoved

/-- All faults of the reading of an item are placed wherever the item stands in a list. -/
def IsPlacedItem (item : Text) (reading : Reading α) : Prop :=
  ∀ ⦃before after : Text⦄, before.StartsItem → after.EndsItem →
    (reading.moved before.length).IsPlacedIn (before ++ (item ++ after))

theorem moved_bind (offset : Nat) (first : Reading α) (next : α → Reading β) :
    (first >>= next).moved offset = first.moved offset >>= fun a => (next a).moved offset := by
  cases first <;> rfl

theorem moved_mapM (offset : Nat) (read : α → Reading β) (xs : List α) :
    Reading.moved offset (xs.mapM read) = xs.mapM fun x => (read x).moved offset := by
  induction xs with
  | nil => rfl
  | cons x more ih =>
    rw [List.mapM_cons, List.mapM_cons, moved_bind]
    congr 1
    funext y
    rw [moved_bind, ih]
    rfl

end Reading

end MemberSynthesis
