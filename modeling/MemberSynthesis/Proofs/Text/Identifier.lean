import MemberSynthesis.Text.Identifier

/-!
# Cutting identifiers off a text

An identifier is cut off at the start of a text by taking word characters for as long as they last.
So what is cut off is known as soon as what follows it is known not to go on with a word character
(`Text.EndsWord`), and **cutting is then the inverse of writing one text after the other**
(`split?_eq_some_iff`). That one equivalence is all that the readers of directives, declarations and
descriptors use; none of them opens `split?`.

`Text.EndsWord` is a condition on what stands *behind* a name and not on the name. It is what every
statement about reading something that was written has to ask for: with `class Recipe` and a letter
behind it, another name is read. The condition is carried along appends by `Text.EndsWord.append`,
so that only the last piece of what follows has to be looked at when the ones before it are empty.

Lines of generated code are also read from their end, where the same holds of `splitEnd?` and of
what stands before the identifier. There the identifier may not start with a digit, while a word
may, so reading from the end can fail where a longer word stands; the equivalence says just when.
-/

set_option autoImplicit false

namespace MemberSynthesis

namespace Text

/-! ## Where a word ends

The empty text ends a word, and so does a text whose first code point is no word code point. A
blank, a bracket, a comma and a colon do, as the callers check by evaluation. -/

/-- A word that stands right before the text ends there: the text is empty, or its first code point
goes on with no word. -/
def EndsWord (text : Text) : Prop := text.head?.any CodePoint.isWord = false

theorem endsWord_nil : EndsWord [] := rfl

theorem endsWord_cons {c : CodePoint} {rest : Text} (h : c.isWord = false) :
    EndsWord (c :: rest) := by
  simpa [EndsWord] using h

theorem takeWhile_eq_nil_of_endsWord {text : Text} (h : text.EndsWord) :
    text.takeWhile CodePoint.isWord = [] := by
  cases text with
  | nil => rfl
  | cons c rest =>
    have hc : c.isWord = false := by simpa [EndsWord] using h
    simp [hc]

theorem dropWhile_eq_self_of_endsWord {text : Text} (h : text.EndsWord) :
    text.dropWhile CodePoint.isWord = text := by
  cases text with
  | nil => rfl
  | cons c rest =>
    have hc : c.isWord = false := by simpa [EndsWord] using h
    simp [hc]

theorem endsWord_dropWhile (text : Text) : EndsWord (text.dropWhile CodePoint.isWord) := by
  have h := List.head?_dropWhile_not CodePoint.isWord text
  cases hhead : (text.dropWhile CodePoint.isWord).head? with
  | none => simp [EndsWord, hhead]
  | some c =>
    rw [hhead] at h
    simpa [EndsWord, hhead] using h

theorem EndsWord.append {text after : Text} (h : text.EndsWord)
    (hafter : text ≠ [] ∨ after.EndsWord) : EndsWord (text ++ after) := by
  cases text with
  | nil => exact hafter.resolve_left fun hne => hne rfl
  | cons c rest => exact h

/-! ## Identifiers, code point by code point

An identifier is not empty and made of word code points. Its first code point is more than that, but
nothing outside of the definition needs to know. -/

theorem ne_nil_of_isIdentifier {text : Text} (h : text.isIdentifier) : text ≠ [] := by
  rintro rfl
  cases h

theorem isWord_of_mem {text : Text} (h : text.isIdentifier) {c : CodePoint} (hc : c ∈ text) :
    c.isWord := by
  cases text with
  | nil => cases hc
  | cons first rest =>
    simp only [isIdentifier, Bool.and_eq_true, List.all_eq_true] at h
    rcases List.mem_cons.1 hc with rfl | hc
    · exact CodePoint.isWord_of_isIdentifierStart h.1
    · exact h.2 c hc

theorem not_mem_of_isIdentifier {text : Text} (h : text.isIdentifier) {c : CodePoint}
    (hc : c.isWord = false) : c ∉ text := by
  intro hmem
  rw [isWord_of_mem h hmem] at hc
  cases hc

end Text

namespace Identifier

/-! ## Cutting

From the front and from the back. In both directions the equivalence is read from left to right to
learn what a text looks like that a name was cut off from, and from right to left to read a name
that was written. -/

/-- **An identifier is cut off just when it stands at the start and its word ends there.** -/
theorem split?_eq_some_iff {text name rest : Text} :
    split? text = some (name, rest) ↔
      name.isIdentifier ∧ rest.EndsWord ∧ text = name ++ rest := by
  constructor
  · intro h
    have htext := (append_of_split? h).1
    cases text with
    | nil => cases h
    | cons c more =>
      by_cases hc : c.isIdentifierStart
      · rw [split?, if_pos hc] at h
        cases h
        refine ⟨?_, Text.endsWord_dropWhile more, htext.symm⟩
        rw [Text.isIdentifier, hc, Bool.true_and]
        exact List.all_takeWhile
      · rw [split?, if_neg hc] at h
        cases h
  · rintro ⟨hname, hrest, rfl⟩
    cases name with
    | nil => cases hname
    | cons c more =>
      have hmore : ∀ d ∈ more, d.isWord := fun d hd =>
        Text.isWord_of_mem hname (List.mem_cons_of_mem c hd)
      rw [Text.isIdentifier, Bool.and_eq_true] at hname
      rw [List.cons_append, split?, if_pos hname.1, List.takeWhile_append_of_pos hmore,
        List.dropWhile_append_of_pos hmore, Text.takeWhile_eq_nil_of_endsWord hrest,
        Text.dropWhile_eq_self_of_endsWord hrest, List.append_nil]

/-- What is written behind a text has no say in the identifier it starts with, if that ends before
the text does or what follows does not go on with it. -/
theorem split?_append {text name rest after : Text} (h : split? text = some (name, rest))
    (hafter : rest ≠ [] ∨ after.EndsWord) :
    split? (text ++ after) = some (name, rest ++ after) := by
  obtain ⟨hname, hrest, rfl⟩ := split?_eq_some_iff.1 h
  exact split?_eq_some_iff.2 ⟨hname, hrest.append hafter, List.append_assoc name rest after⟩

theorem split?_append_eq_none {text : Text} (h : split? text = none) (hne : text ≠ [])
    (after : Text) : split? (text ++ after) = none := by
  cases text with
  | nil => exact absurd rfl hne
  | cons c rest =>
    rw [split?] at h
    split at h
    · cases h
    · rename_i hc
      rw [List.cons_append, split?, if_neg hc]

/-- The identifier that a text ends with, after what precedes it. -/
def splitEnd? (text : Text) : Option (Text × Text) :=
  let name : Text := (text.reverse.takeWhile CodePoint.isWord).reverse
  if name.isIdentifier then some (Text.dropEndWhile CodePoint.isWord text, name) else none

/-- Read from the end, the identifier is cut off just when no word goes on into it. -/
theorem splitEnd?_eq_some_iff {text before name : Text} :
    splitEnd? text = some (before, name) ↔
      name.isIdentifier ∧ Text.EndsWord before.reverse ∧ text = before ++ name := by
  unfold splitEnd?
  constructor
  · intro h
    dsimp only at h
    split at h
    · rename_i hname
      cases h
      refine ⟨hname, ?_, ?_⟩
      · rw [Text.dropEndWhile, List.reverse_reverse]
        exact Text.endsWord_dropWhile _
      · rw [Text.dropEndWhile, ← List.reverse_append, List.takeWhile_append_dropWhile,
          List.reverse_reverse]
    · cases h
  · rintro ⟨hname, hbefore, rfl⟩
    have hword : ∀ c ∈ name.reverse, c.isWord := fun c hc =>
      Text.isWord_of_mem hname (List.mem_reverse.1 hc)
    -- Read backwards, the word characters of the name come first, and none follows them.
    have htake : (before ++ name).reverse.takeWhile CodePoint.isWord = name.reverse := by
      rw [List.reverse_append, List.takeWhile_append_of_pos hword,
        Text.takeWhile_eq_nil_of_endsWord hbefore, List.append_nil]
    have hdrop : (before ++ name).reverse.dropWhile CodePoint.isWord = before.reverse := by
      rw [List.reverse_append, List.dropWhile_append_of_pos hword,
        Text.dropWhile_eq_self_of_endsWord hbefore]
    rw [htake, Text.dropEndWhile, hdrop]
    simp [hname]

end Identifier

end MemberSynthesis
