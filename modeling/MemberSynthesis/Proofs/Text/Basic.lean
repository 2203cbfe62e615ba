import Mathlib.Data.List.TakeWhile
import MemberSynthesis.Text.Blank
import MemberSynthesis.Proofs.Text.Identifier

/-!
# Joining, trimming and words

Three functions cut texts apart and put them together everywhere else in the library: `Text.joined`
writes a separator between texts, `Text.trim` takes the blanks off both ends, and `Text.words`
splits at the blanks. Goals about them could always be opened, down to the functions of the standard
library that they are made of. They are not to be: whoever writes an argument list or a declaration
and reads it again needs to know **what the function does to a text that is written as an append**,
and that is what is proved here, once.

* `Text.trim` gives back the text between two stretches of blanks, if that text is trimmed itself
  (`IsTrimmed.trim_append`), and every text is what is left of it between two such stretches
  (`exists_eq_append_trim`). The two together make trimming a function with a specification, and no
  other module looks at how it is computed.
* `Text.words` of a word with a blank behind it is that word and the words behind it
  (`words_append`).
* An identifier holds no blank (`isTrimmed_of_isIdentifier`), so it is a trimmed text and the start
  of a word.

What is *not* said here is which code points are blanks. Only one fact about the table is used, that
no blank is a word code point, and it is checked by going through the numbers of all blanks
(`CodePoint.isWord_eq_false_of_isBlank`).
-/

set_option autoImplicit false

namespace MemberSynthesis

namespace Text

/-! ## Joining

`joined` is the intercalation of the standard library behind a name of the model. The equations
below follow the recursion on the list; the one for an append needs both lists to be there, because
no separator is written before the first text or behind the last. -/

theorem joined_nil (separator : Text) : joined separator [] = [] := by
  simp [joined, List.intercalate]

theorem joined_singleton (separator text : Text) : joined separator [text] = text := by
  simp [joined, List.intercalate]

theorem joined_cons (separator text : Text) {more : List Text} (h : more ≠ []) :
    joined separator (text :: more) = text ++ (separator ++ joined separator more) := by
  cases more with
  | nil => exact absurd rfl h
  | cons next more => simp [joined, List.intercalate, List.intersperse]

/-- Joining two lists of texts is joining each and writing the separator between them. Neither may
be empty: there would be a separator with nothing on one side. -/
theorem joined_append (separator : Text) {texts others : List Text} (htexts : texts ≠ [])
    (hothers : others ≠ []) :
    joined separator (texts ++ others) = joined separator texts ++
      (separator ++ joined separator others) := by
  induction texts with
  | nil => exact absurd rfl htexts
  | cons text more ih =>
    by_cases hmore : more = []
    · rw [hmore, List.singleton_append, joined_cons separator text hothers, joined_singleton]
    · have hboth : more ++ others ≠ [] := List.append_ne_nil_of_right_ne_nil more hothers
      rw [List.cons_append, joined_cons separator text hboth, ih hmore,
        joined_cons separator text hmore, List.append_assoc, List.append_assoc]

/-- What stands in joined texts stands in one of them or in the separator. Readers of generated code
use this to see that a line feed or a quote comes from a certain part of it. -/
theorem mem_joined_iff {c : CodePoint} {separator : Text} {texts : List Text}
    (hseparator : c ∉ separator) : c ∈ joined separator texts ↔ ∃ text ∈ texts, c ∈ text := by
  induction texts with
  | nil => simp [joined_nil]
  | cons text more ih =>
    by_cases hmore : more = []
    · simp [hmore, joined_singleton]
    · rw [joined_cons separator text hmore]
      simp [hseparator, ih]

theorem not_mem_joined {c : CodePoint} {separator : Text} {texts : List Text}
    (hseparator : c ∉ separator) (h : ∀ text ∈ texts, c ∉ text) : c ∉ joined separator texts := by
  rw [mem_joined_iff hseparator]
  rintro ⟨text, htext, hc⟩
  exact h text htext hc

/-! ## Cutting off the ends

Trimming blanks is one case of `strip`, which takes off both ends what satisfies a predicate;
cutting empty lines off an initializer's text is another. What is said of `strip` here therefore
holds for any predicate. -/

theorem strip_eq_self {p : CodePoint → Bool} {text : Text} (h : ∀ c ∈ text, p c = false) :
    strip p text = text := by
  have hdrop : ∀ {more : Text}, (∀ c ∈ more, p c = false) → more.dropWhile p = more := by
    intro more hmore
    cases more with
    | nil => rfl
    | cons c rest => rw [List.dropWhile_cons, hmore c List.mem_cons_self, if_neg Bool.false_ne_true]
  rw [strip, dropEndWhile, hdrop h, hdrop, List.reverse_reverse]
  intro c hc
  exact h c (List.mem_reverse.1 hc)

theorem mem_of_mem_strip {p : CodePoint → Bool} {c : CodePoint} {text : Text}
    (hc : c ∈ strip p text) : c ∈ text := by
  rw [strip, dropEndWhile, List.mem_reverse] at hc
  have hmem := (List.dropWhile_sublist p).subset hc
  exact (List.dropWhile_sublist p).subset (List.mem_reverse.1 hmem)

theorem mem_strip {p : CodePoint → Bool} {c : CodePoint} {text : Text} (hc : c ∈ text)
    (hp : p c = false) : c ∈ strip p text := by
  have hdrop : ∀ {more : Text}, c ∈ more → c ∈ more.dropWhile p := by
    intro more hmore
    rw [← List.takeWhile_append_dropWhile (p := p) (l := more), List.mem_append] at hmore
    rcases hmore with hmore | hmore
    · have hall := List.all_eq_true.1 (List.all_takeWhile (p := p) (l := more)) c hmore
      rw [hp] at hall
      cases hall
    · exact hmore
  rw [strip, dropEndWhile, List.mem_reverse]
  exact hdrop (List.mem_reverse.2 (hdrop hc))

/-- What neither starts nor ends with what is cut off is left over, however much of that stands
before and behind it. Together with `exists_eq_append_strip`, its converse, this determines
`strip`. -/
theorem strip_append {p : CodePoint → Bool} {before text after : Text}
    (hfirst : ∃ c more, text = c :: more ∧ p c = false)
    (hlast : ∃ more c, text = more ++ [c] ∧ p c = false)
    (hbefore : ∀ c ∈ before, p c) (hafter : ∀ c ∈ after, p c) :
    strip p (before ++ (text ++ after)) = text := by
  have hstart : (before ++ (text ++ after)).dropWhile p = text ++ after := by
    obtain ⟨c, more, rfl, hc⟩ := hfirst
    rw [List.dropWhile_append_of_pos hbefore, List.cons_append,
      List.dropWhile_cons_of_neg (by simp [hc])]
  obtain ⟨more, c, rfl, hc⟩ := hlast
  rw [strip, hstart, dropEndWhile, List.reverse_append,
    List.dropWhile_append_of_pos fun d hd => hafter d (List.mem_reverse.1 hd), List.reverse_append,
    List.reverse_singleton, List.singleton_append, List.dropWhile_cons_of_neg (by simp [hc])]
  simp

/-- A text is what is left of it, between what is cut off. What is cut off at the front is given by
name, as callers count its code points. -/
theorem exists_eq_append_strip (p : CodePoint → Bool) (text : Text) :
    ∃ after, text = text.takeWhile p ++ (strip p text ++ after) ∧ ∀ c ∈ after, p c := by
  refine ⟨((text.dropWhile p).reverse.takeWhile p).reverse, ?_, ?_⟩
  · rw [strip, dropEndWhile, ← List.reverse_append, List.takeWhile_append_dropWhile,
      List.reverse_reverse, List.takeWhile_append_dropWhile]
  · intro c hc
    exact List.all_eq_true.1 List.all_takeWhile c (List.mem_reverse.1 hc)

/-- Where code points stop satisfying `p` before the text ends, one stands that does not. The length
is compared, and not the texts, because that is how the readers ask whether they have come to the
end. -/
theorem exists_of_length_takeWhile_lt {p : CodePoint → Bool} {text : Text}
    (h : (text.takeWhile p).length < text.length) :
    ∃ c later, text = text.takeWhile p ++ c :: later ∧ p c = false := by
  have hsplit := List.takeWhile_append_dropWhile (p := p) (l := text)
  have hhead := List.head?_dropWhile_not p text
  cases hdrop : text.dropWhile p with
  | nil =>
    rw [hdrop, List.append_nil] at hsplit
    rw [hsplit] at h
    exact absurd h (Nat.lt_irrefl _)
  | cons c later =>
    rw [hdrop] at hsplit hhead
    exact ⟨c, later, hsplit.symm, by simpa using hhead⟩

/-! ## Trimming

Blanks are taken off the start, off the end, or off both. An offset moves by what is taken off the
start (`leadingBlanks`), so that a fault in a trimmed text can be laid on the right place in the
whole; what is taken off the end changes no offset. -/

/-- The text starts and ends with a code point that is no blank, and so is not empty. Written with
both appends: the first is what a reader looks at, the last is what keeps blanks behind the text
apart from it. -/
structure IsTrimmed (text : Text) : Prop where
  first : ∃ c more, text = c :: more ∧ c.isBlank = false
  last : ∃ more c, text = more ++ [c] ∧ c.isBlank = false

theorem trimStart_cons_of_isBlank {c : CodePoint} {text : Text} (h : c.isBlank) :
    trimStart (c :: text) = trimStart text := by
  rw [trimStart, List.dropWhile_cons_of_pos h, trimStart]

theorem trimStart_cons_of_not_isBlank {c : CodePoint} {text : Text} (h : c.isBlank = false) :
    trimStart (c :: text) = c :: text := by
  rw [trimStart, List.dropWhile_cons_of_neg (by simp [h])]

theorem trim_cons_of_isBlank {c : CodePoint} {text : Text} (h : c.isBlank) :
    trim (c :: text) = trim text := by
  rw [trim, strip, List.dropWhile_cons_of_pos h, trim, strip]

theorem IsTrimmed.trimStart_eq {text : Text} (h : text.IsTrimmed) : text.trimStart = text := by
  obtain ⟨c, more, rfl, hc⟩ := h.first
  exact trimStart_cons_of_not_isBlank hc

theorem IsTrimmed.trim_eq {text : Text} (h : text.IsTrimmed) : text.trim = text := by
  have hstart := h.trimStart_eq
  obtain ⟨more, c, rfl, hc⟩ := h.last
  rw [trimStart] at hstart
  rw [trim, strip, hstart, dropEndWhile, List.reverse_append, List.reverse_singleton,
    List.singleton_append, List.dropWhile_cons_of_neg (by simp [hc])]
  simp

theorem trimStart_append {before text : Text} (hbefore : ∀ c ∈ before, c.isBlank) :
    trimStart (before ++ text) = trimStart text :=
  List.dropWhile_append_of_pos hbefore

/-- What is written behind a text that is not blank stays behind it. In a blank text the blanks
would be taken off what follows as well. -/
theorem trimStart_append_of_ne_nil {text : Text} (h : trimStart text ≠ []) (after : Text) :
    trimStart (text ++ after) = trimStart text ++ after := by
  rw [trimStart, List.dropWhile_append, ← trimStart, if_neg (by rwa [List.isEmpty_iff])]

theorem trimStart_eq_nil_iff {text : Text} : trimStart text = [] ↔ ∀ c ∈ text, c.isBlank :=
  List.dropWhile_eq_nil_iff

theorem IsTrimmed.trim_append {before text after : Text} (h : text.IsTrimmed)
    (hbefore : ∀ c ∈ before, c.isBlank) (hafter : ∀ c ∈ after, c.isBlank) :
    trim (before ++ (text ++ after)) = text :=
  strip_append h.first h.last hbefore hafter

theorem IsTrimmed.trimEnd_append {text after : Text} (h : text.IsTrimmed)
    (hafter : ∀ c ∈ after, c.isBlank) : trimEnd (text ++ after) = text := by
  obtain ⟨more, c, rfl, hc⟩ := h.last
  rw [trimEnd, dropEndWhile, List.reverse_append,
    List.dropWhile_append_of_pos fun d hd => hafter d (List.mem_reverse.1 hd), List.reverse_append,
    List.reverse_singleton, List.singleton_append, List.dropWhile_cons_of_neg (by simp [hc])]
  simp

theorem countP_dropWhile (p : CodePoint → Bool) (text : Text) :
    (text.dropWhile p).countP (fun c => !p c) = text.countP fun c => !p c := by
  induction text with
  | nil => rfl
  | cons c more ih =>
    cases hc : p c with
    | true => rw [List.dropWhile_cons_of_pos hc, ih, List.countP_cons_of_neg (by simp [hc])]
    | false => rw [List.dropWhile_cons_of_neg (by simp [hc])]

/-- Trimming takes off blanks only: there are as many other code points as before. That makes the
number of them a measure for readers that trim before they call themselves. -/
theorem countP_trim (text : Text) :
    (trim text).countP (fun c => !c.isBlank) = text.countP fun c => !c.isBlank := by
  rw [trim, strip, dropEndWhile, List.countP_reverse, countP_dropWhile, List.countP_reverse,
    countP_dropWhile]

theorem takeWhile_append_trimStart (text : Text) :
    text.takeWhile CodePoint.isBlank ++ trimStart text = text :=
  List.takeWhile_append_dropWhile

theorem isBlank_of_mem_takeWhile {text : Text} {c : CodePoint}
    (hc : c ∈ text.takeWhile CodePoint.isBlank) : c.isBlank :=
  List.all_eq_true.1 List.all_takeWhile c hc

theorem leadingBlanks_le (text : Text) : leadingBlanks text ≤ text.length :=
  (List.takeWhile_sublist CodePoint.isBlank).length_le

theorem drop_leadingBlanks (text : Text) : text.drop (leadingBlanks text) = trimStart text := by
  have h := @List.drop_left _ (text.takeWhile CodePoint.isBlank) (trimStart text)
  rwa [takeWhile_append_trimStart] at h

theorem leadingBlanks_append_of_ne_nil {text : Text} (h : trimStart text ≠ []) (after : Text) :
    leadingBlanks (text ++ after) = leadingBlanks text := by
  have hlength : (text.takeWhile CodePoint.isBlank).length ≠ text.length := by
    intro hall
    rw [← drop_leadingBlanks, leadingBlanks, hall, List.drop_length] at h
    exact h rfl
  rw [leadingBlanks, List.takeWhile_append, if_neg hlength, leadingBlanks]

/-- A text is what is left of it by trimming its end, before blanks. Offsets in the text are offsets
in what is left. -/
theorem exists_eq_trimEnd_append (text : Text) :
    ∃ after, (∀ c ∈ after, c.isBlank) ∧ text = trimEnd text ++ after := by
  refine ⟨(text.reverse.takeWhile CodePoint.isBlank).reverse, ?_, ?_⟩
  · intro c hc
    exact isBlank_of_mem_takeWhile (List.mem_reverse.1 hc)
  · rw [trimEnd, dropEndWhile, ← List.reverse_append, List.takeWhile_append_dropWhile,
      List.reverse_reverse]

/-- **A text is what is left of it by trimming, between blanks.** The blanks in front are as many as
`leadingBlanks` says, so that an offset in the trimmed text becomes one in the whole. -/
theorem exists_eq_append_trim (text : Text) :
    ∃ before after, text = before ++ (trim text ++ after) ∧ before.length = leadingBlanks text ∧
      (∀ c ∈ before, c.isBlank) ∧ ∀ c ∈ after, c.isBlank := by
  obtain ⟨after, htext, hafter⟩ := text.exists_eq_append_strip CodePoint.isBlank
  exact ⟨text.takeWhile CodePoint.isBlank, after, htext, rfl,
    fun c hc => isBlank_of_mem_takeWhile hc, hafter⟩

theorem trim_isPrefix_trimStart (text : Text) : trim text <+: trimStart text := by
  rw [trim, strip, dropEndWhile, trimStart, ← List.reverse_suffix, List.reverse_reverse]
  exact List.dropWhile_suffix _

/-- What a trimmed text starts with follows some blanks in the text. With it a search in the trimmed
text becomes a search in the whole one. -/
theorem exists_of_isPrefix_trim {start text : Text} (h : start <+: trim text) :
    ∃ blanks, (∀ c ∈ blanks, c.isBlank) ∧ blanks ++ start <+: text := by
  refine ⟨text.takeWhile CodePoint.isBlank, fun c hc => isBlank_of_mem_takeWhile hc, ?_⟩
  obtain ⟨more, hmore⟩ := h.trans (trim_isPrefix_trimStart text)
  refine ⟨more, ?_⟩
  rw [List.append_assoc, hmore, takeWhile_append_trimStart]

theorem eq_false_of_getLast?_dropEndWhile {p : CodePoint → Bool} {text : Text} {c : CodePoint}
    (h : (dropEndWhile p text).getLast? = some c) : p c = false := by
  rw [dropEndWhile, List.getLast?_reverse] at h
  have hhead := List.head?_dropWhile_not p text.reverse
  rw [h] at hhead
  simpa using hhead

/-- Trimming leaves a text that starts and ends with no blank, if there is anything to leave, that
is, if some code point is no blank. -/
theorem isTrimmed_trim {text : Text} (h : ∃ c ∈ text, c.isBlank = false) :
    (trim text).IsTrimmed := by
  obtain ⟨d, hd, hblank⟩ := h
  have hne : trim text ≠ [] := List.ne_nil_of_mem (mem_strip hd hblank)
  constructor
  · obtain ⟨c, more, htrim⟩ := List.exists_cons_of_ne_nil hne
    obtain ⟨after, hstart⟩ := trim_isPrefix_trimStart text
    have hhead := List.head?_dropWhile_not CodePoint.isBlank text
    rw [← trimStart, ← hstart, htrim, List.cons_append, List.head?_cons] at hhead
    exact ⟨c, more, htrim, by simpa using hhead⟩
  · exact ⟨_, _, (List.dropLast_concat_getLast hne).symm,
      eq_false_of_getLast?_dropEndWhile (List.getLast?_eq_some_getLast hne)⟩

theorem leadingBlanks_append {before text : Text} (hbefore : ∀ c ∈ before, c.isBlank) :
    leadingBlanks (before ++ text) = before.length + leadingBlanks text := by
  rw [leadingBlanks, List.takeWhile_append_of_pos hbefore, List.length_append, leadingBlanks]

theorem IsTrimmed.leadingBlanks_append {text : Text} (h : text.IsTrimmed) (after : Text) :
    leadingBlanks (text ++ after) = 0 := by
  obtain ⟨c, more, rfl, hc⟩ := h.first
  rw [leadingBlanks, List.cons_append, List.takeWhile_cons_of_neg (by simp [hc])]
  rfl

theorem trim_of_isBlank {text : Text} (h : ∀ c ∈ text, c.isBlank) : trim text = [] := by
  have hdrop : text.dropWhile CodePoint.isBlank = [] := List.dropWhile_eq_nil_iff.2 h
  rw [trim, strip, hdrop]
  rfl

theorem leadingBlanks_of_isBlank {text : Text} (h : ∀ c ∈ text, c.isBlank) :
    leadingBlanks text = text.length := by
  rw [leadingBlanks, List.takeWhile_eq_self_iff.2 h]

theorem IsTrimmed.not_all_isBlank {text : Text} (h : text.IsTrimmed) :
    text.all CodePoint.isBlank = false := by
  obtain ⟨c, more, rfl, hc⟩ := h.first
  simp [hc]

end Text

/-! ## Words hold no blanks

Blanks and word code points are two tables, and that they have nothing in common is a fact about the
numbers in them. All blanks are listed (`blankNumbers`, twenty-nine of them), and each is looked up
among the words by evaluation; every other lemma here goes through this one. -/

namespace CodePoint

/-- The numbers of all blanks, as a list that can be gone through: the space, the layout controls,
the information separators, and the wide blanks range by range. -/
def blankNumbers : List Nat :=
  [0x20] ++ List.range' 0x09 5 ++ List.range' 0x1C 4 ++
    wideBlankRanges.flatMap fun range => List.range' range.1 (range.2 + 1 - range.1)

theorem mem_blankNumbers {c : CodePoint} (h : c.isBlank) : c.toNat ∈ blankNumbers := by
  simp only [isBlank, inRanges, List.any_eq_true, Bool.or_eq_true, Bool.and_eq_true,
    decide_eq_true_eq] at h
  simp only [blankNumbers, List.mem_append, List.mem_singleton, List.mem_flatMap, List.mem_range'_1]
  rcases h with ((h | h) | h) | ⟨range, hrange, h⟩
  · exact .inl (.inl (.inl h))
  · exact .inl (.inl (.inr (by omega)))
  · exact .inl (.inr (by omega))
  · exact .inr ⟨range, hrange, by omega⟩

theorem isWord_eq_false_of_isBlank {c : CodePoint} (h : c.isBlank) : c.isWord = false := by
  have hnumbers : ∀ n ∈ blankNumbers, ¬ (0x41 ≤ n ∧ n ≤ 0x5A) ∧ ¬ (0x61 ≤ n ∧ n ≤ 0x7A) ∧
      n ≠ 0x5F ∧ ¬ (0x30 ≤ n ∧ n ≤ 0x39) ∧ inRanges wideWordRanges n = false := by
    decide +kernel
  obtain ⟨hcapital, hsmall, hscore, hdigit, hwide⟩ := hnumbers _ (mem_blankNumbers h)
  simp only [isWord, isIdentifierStart, hwide, Bool.and_false, Bool.or_false, Bool.or_eq_false_iff,
    Bool.and_eq_false_iff, decide_eq_false_iff_not]
  omega

theorem isBlank_eq_false_of_isWord {c : CodePoint} (h : c.isWord) : c.isBlank = false := by
  cases hblank : c.isBlank with
  | false => rfl
  | true =>
    rw [isWord_eq_false_of_isBlank hblank] at h
    cases h

end CodePoint

namespace Text

theorem isTrimmed_of_isIdentifier {text : Text} (h : text.isIdentifier) : text.IsTrimmed := by
  have hblank : ∀ c ∈ text, c.isBlank = false := fun c hc =>
    CodePoint.isBlank_eq_false_of_isWord (isWord_of_mem h hc)
  constructor
  · obtain ⟨c, more, rfl⟩ := List.exists_cons_of_ne_nil (ne_nil_of_isIdentifier h)
    exact ⟨c, more, rfl, hblank c List.mem_cons_self⟩
  · have hne := ne_nil_of_isIdentifier h
    exact ⟨text.dropLast, text.getLast hne, (List.dropLast_concat_getLast hne).symm,
      hblank _ (List.getLast_mem hne)⟩

/-- A blank goes on with no word, and neither does the end of the text. So a name before a blank is
read as it was written. -/
theorem endsWord_of_blank {text : Text} (h : text.head?.all CodePoint.isBlank) : text.EndsWord := by
  cases text with
  | nil => exact endsWord_nil
  | cons c more => exact endsWord_cons (CodePoint.isWord_eq_false_of_isBlank h)

theorem head?_all_isBlank {text : Text} (h : ∀ c ∈ text, c.isBlank) :
    text.head?.all CodePoint.isBlank := by
  cases text with
  | nil => rfl
  | cons c more => exact h c List.mem_cons_self

/-- A word reaches up to the next blank, or to the end of the text. This is the step lemma for
everything that reads a declaration, which does so word by word. -/
theorem words_append {word rest : Text} (hne : word ≠ []) (hword : ∀ d ∈ word, d.isBlank = false)
    (hrest : rest.head?.all CodePoint.isBlank) : words (word ++ rest) = word :: words rest := by
  induction word with
  | nil => exact absurd rfl hne
  | cons d more ih =>
    have hd := hword d List.mem_cons_self
    rw [List.cons_append, words, if_neg (by simp [hd])]
    cases more with
    | nil => rw [List.nil_append, if_pos hrest]
    | cons e more =>
      have he := hword e (by simp)
      have hmore := ih (List.cons_ne_nil _ _) fun d hd => hword d (List.mem_cons_of_mem _ hd)
      rw [if_neg (by simp [he]), hmore]

/-- The first word of a text that does not start with a blank reaches up to the first blank. Nothing
is said of the words behind it, which the callers do not look at. -/
theorem exists_words_eq_cons {rest : Text} : ∀ {c : CodePoint}, c.isBlank = false →
    ∃ more, words (c :: rest) = (c :: rest.takeWhile fun d => !d.isBlank) :: more := by
  induction rest with
  | nil =>
    intro c hc
    exact ⟨[], by simp [words, hc]⟩
  | cons d rest ih =>
    intro c hc
    rw [words, if_neg (by simp [hc])]
    cases hd : d.isBlank with
    | true => exact ⟨words (d :: rest), by simp [hd]⟩
    | false =>
      obtain ⟨more, hmore⟩ := ih hd
      rw [hmore, if_neg (by simp [hd])]
      exact ⟨more, by simp [hd]⟩

/-- An identifier starts the first word of the text that it starts, but need not be all of it: in
`Recipe<T>` the name is followed by what goes on with no word. -/
theorem exists_words_of_isIdentifier {name rest : Text} (hname : name.isIdentifier)
    (hrest : rest.EndsWord) :
    ∃ ending more, words (name ++ rest) = (name ++ ending) :: more ∧ ending.EndsWord := by
  have hblank : ∀ c ∈ name, (!c.isBlank) = true := fun c hc => by
    simp [CodePoint.isBlank_eq_false_of_isWord (isWord_of_mem hname hc)]
  obtain ⟨c, tail, rfl⟩ := List.exists_cons_of_ne_nil (ne_nil_of_isIdentifier hname)
  have hc : c.isBlank = false := by simpa using hblank c List.mem_cons_self
  obtain ⟨more, hmore⟩ : ∃ more, words (c :: (tail ++ rest)) =
      (c :: (tail ++ rest).takeWhile fun d => !d.isBlank) :: more := exists_words_eq_cons hc
  refine ⟨rest.takeWhile fun d => !d.isBlank, more, ?_, ?_⟩
  · rw [List.cons_append, hmore, List.takeWhile_append_of_pos fun d hd =>
      hblank d (List.mem_cons_of_mem c hd), List.cons_append]
  · cases rest with
    | nil => exact endsWord_nil
    | cons d more =>
      cases hd : d.isBlank with
      | true =>
        rw [List.takeWhile_cons_of_neg (by simp [hd])]
        exact endsWord_nil
      | false =>
        rw [List.takeWhile_cons_of_pos (by simp [hd])]
        exact hrest

end Text

end MemberSynthesis
