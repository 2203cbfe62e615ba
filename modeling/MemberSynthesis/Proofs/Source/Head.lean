import MemberSynthesis.Proofs.Text.Basic
import MemberSynthesis.Source.Declaration

/-!
# Heads of declarations

A declaration is recognised by the words of a text, and words do not tell where they stand. **What
they say is a grammar** (`Declaration.IsHead`): any number of modifiers, the keyword of a kind and a
name, with blanks in between. A declaration is recognised just when a head of it stands at the start
of the text, after blanks, and the name ends there (`Declaration.ofHead?_eq_some_iff`). So it is
known how far the head reaches, and nothing behind that has a say.

The words are maximal stretches without blanks, so a keyword must be a word of its own while a name
need only be the start of one: `class Recipe<T>` declares `Recipe`. Nothing else is allowed between
modifiers and keyword, and no modifier is a keyword (`keyword_not_mem_modifiers`), so that a text
has one head at most. What is *not* in the grammar is what follows the name, and no word before the
keyword that is no modifier.
-/

set_option autoImplicit false

namespace MemberSynthesis

/-! ## The words of a text and where they stand -/

namespace Text

theorem words_blanks {blanks text : Text} (h : ∀ c ∈ blanks, c.isBlank) :
    words (blanks ++ text) = words text := by
  induction blanks with
  | nil => rfl
  | cons c more ih =>
    rw [List.cons_append, words, if_pos (h c List.mem_cons_self),
      ih fun d hd => h d (List.mem_cons_of_mem c hd)]

/-- The first word of a text stands behind blanks, and what follows it holds the other words. It is
what turns a list of words back into a text. -/
theorem exists_of_words_eq_cons {text word : Text} {more : List Text}
    (h : words text = word :: more) :
    ∃ blanks rest, text = blanks ++ (word ++ rest) ∧ (∀ c ∈ blanks, c.isBlank) ∧ word ≠ [] ∧
      (∀ c ∈ word, c.isBlank = false) ∧ rest.head?.all CodePoint.isBlank ∧ words rest = more := by
  induction text generalizing word with
  | nil => cases h
  | cons c text ih =>
    rw [words] at h
    split at h
    · rename_i hc
      obtain ⟨blanks, rest, rfl, hblanks, hword⟩ := ih h
      exact ⟨c :: blanks, rest, rfl, List.forall_mem_cons.2 ⟨hc, hblanks⟩, hword⟩
    · rename_i hc
      have hc : c.isBlank = false := by simpa using hc
      split at h
      · rename_i hend
        cases h
        exact ⟨[], text, rfl, by simp, List.cons_ne_nil _ _, by simpa using hc, hend, rfl⟩
      · -- The word goes on, and so what is left of it is the first word of the rest.
        rename_i hend
        cases text with
        | nil => exact absurd rfl hend
        | cons d text =>
          have hd : d.isBlank = false := by simpa using hend
          obtain ⟨others, hothers⟩ := @exists_words_eq_cons text d hd
          rw [hothers] at h
          cases h
          obtain ⟨blanks, rest, htext, hblanks, _, hword, hrest⟩ := ih hothers
          cases blanks with
          | nil =>
            refine ⟨[], rest, congrArg (c :: ·) htext, by simp, List.cons_ne_nil _ _, ?_, hrest⟩
            exact List.forall_mem_cons.2 ⟨hc, hword⟩
          | cons e blanks =>
            obtain rfl : d = e := (List.cons.inj htext).1
            exact absurd (hblanks d List.mem_cons_self) (by simp [hd])

end Text

/-- An identifier at the start of a text is one at the start of its first word, and the other way
round, if no blank precedes it. -/
theorem Identifier.bind_head?_words {α : Type} {text : Text} (htrim : text.trimStart = text)
    (f : Text → α) :
    (text.words.head?.bind fun word => (split? word).map fun found => f found.1) =
      (split? text).map fun found => f found.1 := by
  cases hsplit : split? text with
  | some found =>
    obtain ⟨hname, hrest, rfl⟩ := split?_eq_some_iff.1 hsplit
    obtain ⟨ending, more, hwords, hending⟩ := Text.exists_words_of_isIdentifier hname hrest
    rw [hwords, List.head?_cons, Option.bind_some, split?_eq_some_iff.2 ⟨hname, hending, rfl⟩]
    rfl
  | none =>
    cases text with
    | nil => rfl
    | cons c rest =>
      have hc : c.isBlank = false := by
        refine Bool.eq_false_iff.2 fun hc => ?_
        rw [Text.trimStart_cons_of_isBlank hc] at htrim
        have hlength := Text.length_trimStart_le rest
        rw [htrim, List.length_cons] at hlength
        omega
      obtain ⟨more, hwords⟩ := @Text.exists_words_eq_cons rest c hc
      rw [hwords, List.head?_cons, Option.bind_some]
      rw [split?] at hsplit ⊢
      split at hsplit
      · cases hsplit
      · rename_i hstart
        rw [if_neg hstart]

namespace Declaration

/-! ## Heads

A head is a list of modifiers before the keyword and the name, and the induction is over that list:
a modifier is skipped by the reader and a keyword makes it stop. -/

/-- The text is the head of a declaration: modifiers, the keyword of its kind, and its name, with at
least one blank between each two. -/
inductive IsHead (declaration : Declaration) : Text → Prop where
  | named {blanks : Text} (separated : blanks ≠ []) (blank : ∀ c ∈ blanks, c.isBlank)
      (identifier : declaration.name.isIdentifier) :
      IsHead declaration (declaration.kind.keyword ++ (blanks ++ declaration.name))
  | modified {modifier blanks head : Text} (known : modifier ∈ modifiers) (separated : blanks ≠ [])
      (blank : ∀ c ∈ blanks, c.isBlank) (more : IsHead declaration head) :
      IsHead declaration (modifier ++ (blanks ++ head))

variable {declaration : Declaration} {head text rest : Text}

theorem isIdentifier_of_mem_modifiers {modifier : Text} (h : modifier ∈ modifiers) :
    modifier.isIdentifier := by
  have hall : ∀ word ∈ modifiers, word.isIdentifier := by decide
  exact hall modifier h

theorem isIdentifier_keyword (kind : DeclarationKind) : kind.keyword.isIdentifier := by
  cases kind <;> decide

theorem keyword_not_mem_modifiers (kind : DeclarationKind) : kind.keyword ∉ modifiers := by
  cases kind <;> decide

theorem exists_cons_of_isIdentifier {word : Text} (h : word.isIdentifier) :
    ∃ c more, word = c :: more ∧ c.isWord := by
  obtain ⟨c, more, rfl⟩ := List.exists_cons_of_ne_nil (Text.ne_nil_of_isIdentifier h)
  exact ⟨c, more, rfl, Text.isWord_of_mem h List.mem_cons_self⟩

/-- A head starts with a word character. -/
theorem IsHead.exists_cons (h : declaration.IsHead head) :
    ∃ c more, head = c :: more ∧ c.isWord := by
  cases h with
  | named _ _ _ =>
    obtain ⟨c, more, hkeyword, hc⟩ := exists_cons_of_isIdentifier
      (isIdentifier_keyword declaration.kind)
    exact ⟨c, _, by rw [hkeyword, List.cons_append], hc⟩
  | modified known _ _ _ =>
    obtain ⟨c, more, rfl, hc⟩ := exists_cons_of_isIdentifier (isIdentifier_of_mem_modifiers known)
    exact ⟨c, _, List.cons_append, hc⟩

/-- A head ends with a word character. -/
theorem IsHead.getLast?_eq (h : declaration.IsHead head) :
    ∃ c, head.getLast? = some c ∧ c.isWord := by
  induction h with
  | @named blanks _ _ identifier =>
    have hne := Text.ne_nil_of_isIdentifier identifier
    refine ⟨declaration.name.getLast hne, ?_, Text.isWord_of_mem identifier (List.getLast_mem hne)⟩
    rw [List.getLast?_append, List.getLast?_append, List.getLast?_eq_some_getLast hne]
    rfl
  | modified _ _ _ _ ih =>
    obtain ⟨c, hlast, hc⟩ := ih
    refine ⟨c, ?_, hc⟩
    rw [List.getLast?_append, List.getLast?_append, hlast]
    rfl

/-- The words of a text that starts with an identifier and blanks. -/
theorem words_of_isIdentifier {word blanks : Text} (hword : word.isIdentifier) (hne : blanks ≠ [])
    (hblanks : ∀ c ∈ blanks, c.isBlank) (text : Text) :
    (word ++ (blanks ++ text)).words = word :: text.words := by
  have hends : (blanks ++ text).head?.all CodePoint.isBlank := by
    obtain ⟨c, more, rfl⟩ := List.exists_cons_of_ne_nil hne
    exact hblanks c List.mem_cons_self
  have hnotBlank : ∀ c ∈ word, c.isBlank = false := fun c hc =>
    CodePoint.isBlank_eq_false_of_isWord (Text.isWord_of_mem hword hc)
  rw [Text.words_append (Text.ne_nil_of_isIdentifier hword) hnotBlank hends,
    Text.words_blanks hblanks]

/-- A modifier at the start of a text has no say, whatever follows the blanks behind it. -/
theorem ofHead?_modified {modifier blanks : Text} (known : modifier ∈ modifiers)
    (separated : blanks ≠ []) (blank : ∀ c ∈ blanks, c.isBlank) (text : Text) :
    ofHead? (modifier ++ (blanks ++ text)) = ofHead? text := by
  rw [ofHead?, words_of_isIdentifier (isIdentifier_of_mem_modifiers known) separated blank,
    List.dropWhile_cons_of_pos (by simpa using known), ← ofHead?]

/-- Behind a keyword, the name is what the next word starts with; and if that is no identifier,
there is no declaration. -/
theorem ofHead?_keyword (kind : DeclarationKind) {blanks : Text} (separated : blanks ≠ [])
    (blank : ∀ c ∈ blanks, c.isBlank) (text : Text) :
    ofHead? (kind.keyword ++ (blanks ++ text)) =
      text.words.head?.bind fun named => (Identifier.split? named).map fun found =>
        ⟨kind, found.1⟩ := by
  have hkind : Vocabulary.ofWord? kind.keyword = some kind := Vocabulary.ofWord?_eq_some_iff.2 rfl
  rw [ofHead?, words_of_isIdentifier (isIdentifier_keyword kind) separated blank,
    List.dropWhile_cons_of_neg (by simpa using keyword_not_mem_modifiers kind)]
  cases text.words with
  | nil => rfl
  | cons named _ =>
    simp only [hkind, Option.bind_eq_bind, Option.bind_some, Option.pure_def, List.head?_cons]
    cases Identifier.split? named <;> rfl

/-- **A head at the start of a text is recognised**, if the name ends there. Modifiers are skipped
one by one. -/
theorem IsHead.ofHead?_eq_some (h : declaration.IsHead head) (hrest : rest.EndsWord) :
    ofHead? (head ++ rest) = some declaration := by
  induction h with
  | @named blanks separated blank identifier =>
    obtain ⟨ending, more, hwords, hending⟩ := Text.exists_words_of_isIdentifier identifier hrest
    have hname : Identifier.split? (declaration.name ++ ending) = some (declaration.name, ending) :=
      Identifier.split?_eq_some_iff.2 ⟨identifier, hending, rfl⟩
    rw [List.append_assoc, List.append_assoc, ofHead?_keyword _ separated blank, hwords,
      List.head?_cons, Option.bind_some, hname]
    rfl
  | modified known separated blank _ ih =>
    rw [List.append_assoc, List.append_assoc, ofHead?_modified known separated blank, ih]

/-- Between a word and what is no blank there are blanks. -/
theorem ne_nil_of_head?_all_isBlank {blanks more : Text} {c : CodePoint}
    (h : (blanks ++ c :: more).head?.all CodePoint.isBlank) (hc : c.isBlank = false) :
    blanks ≠ [] := by
  rintro rfl
  have hblank : c.isBlank := h
  rw [hc] at hblank
  cases hblank

/-- **A recognised declaration has a head** at the start of the text, and its name ends there. The
head is put together word by word, as the reader went. -/
theorem exists_isHead_of_ofHead? (h : ofHead? text = some declaration) :
    ∃ blanks head rest, text = blanks ++ (head ++ rest) ∧ (∀ c ∈ blanks, c.isBlank) ∧
      declaration.IsHead head ∧ rest.EndsWord := by
  -- By induction on the words, of which the first ones are modifiers.
  generalize hwords : text.words = words at h
  induction words generalizing text with
  | nil =>
    rw [ofHead?, hwords] at h
    cases h
  | cons word more ih =>
    obtain ⟨blanks, rest, rfl, hblanks, _, _, hend, hmore⟩ := Text.exists_of_words_eq_cons hwords
    rw [ofHead?, hwords] at h
    by_cases hmodifier : word ∈ modifiers
    · rw [List.dropWhile_cons_of_pos (by simpa using hmodifier), ← hmore, ← ofHead?] at h
      obtain ⟨gap, head, after, rfl, hgap, hhead, hafter⟩ := ih h hmore
      have hseparated : gap ≠ [] := by
        obtain ⟨c, tail, rfl, hc⟩ := hhead.exists_cons
        exact ne_nil_of_head?_all_isBlank hend (CodePoint.isBlank_eq_false_of_isWord hc)
      exact ⟨blanks, word ++ (gap ++ head), after, by simp only [List.append_assoc], hblanks,
        .modified hmodifier hseparated hgap hhead, hafter⟩
    · rw [List.dropWhile_cons_of_neg (by simpa using hmodifier)] at h
      cases more with
      | nil => cases h
      | cons named others =>
        obtain ⟨kind, hkind, hnamed⟩ := Option.bind_eq_some_iff.1 h
        obtain ⟨⟨name, ending⟩, hsplit, hdeclaration⟩ := Option.bind_eq_some_iff.1 hnamed
        cases hdeclaration
        obtain ⟨gap, after, rfl, hgap, hne, hnamedWord, hafter, _⟩ :=
          Text.exists_of_words_eq_cons hmore
        obtain ⟨hname, hending, rfl⟩ := Identifier.split?_eq_some_iff.1 hsplit
        obtain rfl : kind.keyword = word := Vocabulary.ofWord?_eq_some_iff.1 hkind
        have hseparated : gap ≠ [] := by
          obtain ⟨c, tail, hcons⟩ := List.exists_cons_of_ne_nil hne
          rw [hcons] at hend hnamedWord
          exact ne_nil_of_head?_all_isBlank hend (hnamedWord c List.mem_cons_self)
        exact ⟨blanks, kind.keyword ++ (gap ++ name), ending ++ after,
          by simp only [List.append_assoc], hblanks, .named hseparated hgap hname,
          hending.append (.inr (Text.endsWord_of_blank hafter))⟩

/-- **A declaration is recognised just when a text starts with a head of it**, after blanks, and
nothing behind the head goes on with the name. -/
theorem ofHead?_eq_some_iff : ofHead? text = some declaration ↔
    ∃ blanks head rest, text = blanks ++ (head ++ rest) ∧ (∀ c ∈ blanks, c.isBlank) ∧
      declaration.IsHead head ∧ rest.EndsWord := by
  constructor
  · exact exists_isHead_of_ofHead?
  · rintro ⟨blanks, head, rest, rfl, hblanks, hhead, hrest⟩
    rw [ofHead?, Text.words_blanks hblanks, ← ofHead?, hhead.ofHead?_eq_some hrest]

/-- Where no blanks precede it, the head starts with the text. -/
theorem exists_isHead_of_trimStart_eq (h : ofHead? text = some declaration)
    (htrim : text.trimStart = text) :
    ∃ head rest, text = head ++ rest ∧ declaration.IsHead head ∧ rest.EndsWord := by
  obtain ⟨blanks, head, rest, rfl, hblanks, hhead, hrest⟩ := ofHead?_eq_some_iff.1 h
  obtain ⟨c, more, rfl, hc⟩ := hhead.exists_cons
  rw [Text.trimStart_append hblanks, List.cons_append,
    Text.trimStart_cons_of_not_isBlank (CodePoint.isBlank_eq_false_of_isWord hc)] at htrim
  exact ⟨c :: more, rest, htrim.symm, hhead, hrest⟩

end Declaration

end MemberSynthesis
