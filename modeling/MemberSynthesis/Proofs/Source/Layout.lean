import MemberSynthesis.Proofs.Source.Passage

/-!
# The layout of a snippet

A text from which a snippet is read has a **layout** (`Snippet.Layout`): what stands before the
first mention of the attribute, the directive with its argument list, attributes that are passed
over, modifiers, and the declaration. Conversely, whatever stands in place of the modifiers and the
declaration, it is known what the text is read as (`Snippet.Layout.read_withHead`), and with a
declaration there this depends on the directive and the declaration alone
(`Snippet.Layout.read_written_eq_ok_iff`). So **attributes after the directive and modifiers before
the keyword have no say** (`Snippet.read_insert`).

A layout is a structure, and the conditions on its parts are fields of it: that no mention starts in
what stands before the directive, that what is passed over is a passage, that a name is separated
from what precedes it. So a text with a layout is a text of this form, and to insert something is to
give another layout (`Layout.insert`), whose conditions are proved once. **A theorem on all texts
with a snippet is a theorem on all layouts.**

The mention is looked for in the whole text, and the first one counts wherever it stands, in a
comment or in a string. That is why the condition on what stands before is about *starts* of
mentions, and why it takes the mention itself into account: a name could be completed by it.

What the arguments say is left to their own reader. The list may also be missing, in which case
something has to stand between the name of the attribute and what follows.
-/

set_option autoImplicit false

namespace MemberSynthesis

/-! ## The first mention -/

namespace Attribute

variable {name text rest : Text} {offset : Nat}

/-- An identifier behind an at sign is a mention if its word ends there. With more of a word behind
it, it is another attribute. -/
theorem isMention_iff (hname : name.isIdentifier) :
    isMention name text ↔
      ∃ rest : Text, text = CodePoint.scalar '@' :: (name ++ rest) ∧ rest.EndsWord := by
  have hlast : (CodePoint.scalar '@' :: name).getLast?.any CodePoint.isWord = true := by
    have hne := Text.ne_nil_of_isIdentifier hname
    rw [List.getLast?_cons, List.getLast?_eq_some_getLast hne]
    exact Text.isWord_of_mem hname (List.getLast_mem hne)
  simp only [isMention, meetsAtBoundary, hlast, Bool.and_eq_true, List.isPrefixOf_iff_prefix]
  constructor
  · rintro ⟨⟨rest, rfl⟩, hends⟩
    rw [List.drop_left] at hends
    exact ⟨rest, rfl, by simpa [Text.EndsWord] using hends⟩
  · rintro ⟨rest, rfl, hends⟩
    refine ⟨⟨rest, rfl⟩, ?_⟩
    rw [← List.cons_append, List.drop_left]
    simpa [Text.EndsWord] using hends

/-- **What is found is a mention, and none starts before it.** The search goes from the front, one
code point after the other. -/
theorem isMention_of_findMention? (h : findMention? name text = some offset) :
    isMention name (text.drop offset) ∧ ∀ k < offset, isMention name (text.drop k) = false := by
  induction text generalizing offset with
  | nil => cases h
  | cons c more ih =>
    rw [findMention?] at h
    split at h
    · rename_i hhere
      cases h
      exact ⟨hhere, fun k hk => absurd hk (Nat.not_lt_zero k)⟩
    · rename_i hhere
      obtain ⟨found, hfound, rfl⟩ := Option.map_eq_some_iff.1 h
      obtain ⟨hmention, hbefore⟩ := ih hfound
      refine ⟨hmention, fun k hk => ?_⟩
      cases k with
      | zero => simpa using hhere
      | succ k => exact hbefore k (Nat.lt_of_succ_lt_succ hk)

theorem findMention?_of_isMention (h : isMention name text) : findMention? name text = some 0 := by
  cases text with
  | nil => cases h
  | cons c more => rw [findMention?, if_pos h]

/-- Before the place of a mention, only this mention has to be looked at: what stands behind it
makes no difference to whether another one starts earlier. -/
theorem isMention_drop_append {before : Text} {k : Nat} (hk : k < before.length) (rest : Text) :
    isMention name ((before ++ CodePoint.scalar '@' :: (name ++ rest)).drop k) =
      isMention name ((before ++ CodePoint.scalar '@' :: name).drop k) := by
  have hlength : name.length + 1 < ((before ++ CodePoint.scalar '@' :: name).drop k).length := by
    rw [List.length_drop, List.length_append, List.length_cons]
    omega
  rw [← List.cons_append, ← List.append_assoc, List.drop_append_of_le_length (by simp; omega),
    isMention_append hlength]

/-- Where the first mention is found, the text is cut before it and behind it, and the name ends at
the cut. -/
theorem exists_of_findMention? (hname : name.isIdentifier)
    (h : findMention? name text = some offset) :
    ∃ before rest : Text, text = before ++ CodePoint.scalar '@' :: (name ++ rest) ∧
      before.length = offset ∧ rest.EndsWord ∧ ∀ k < before.length,
        isMention name ((before ++ CodePoint.scalar '@' :: name).drop k) = false := by
  obtain ⟨hhere, hbefore⟩ := isMention_of_findMention? h
  obtain ⟨rest, hrest, hends⟩ := (isMention_iff hname).1 hhere
  have htext : text = text.take offset ++ CodePoint.scalar '@' :: (name ++ rest) := by
    rw [← hrest, List.take_append_drop]
  have hoffset : (text.take offset).length = offset := by
    have hle := le_of_findMention? h
    rw [List.length_take]
    omega
  refine ⟨text.take offset, rest, htext, hoffset, hends, fun k hk => ?_⟩
  rw [← isMention_drop_append hk, ← htext]
  exact hbefore k (hoffset ▸ hk)

end Attribute

/-! ## Layouts -/

/-- A modifier as it is written, blanks behind it. -/
structure WrittenModifier where
  word : Text
  behind : Text
  known : word ∈ Declaration.modifiers
  separated : behind ≠ []
  blank : ∀ c ∈ behind, c.isBlank

namespace WrittenModifier

/-- The modifier with the blanks behind it. -/
def written (modifier : WrittenModifier) : Text := modifier.word ++ modifier.behind

/-- Modifiers one after the other. -/
def writtenAll (modifiers : List WrittenModifier) : Text := modifiers.flatMap written

end WrittenModifier

/-- The arguments of a list that may be missing. -/
def ArgumentList.readOption : Option ArgumentList → Reading (List Argument)
  | none => .ok []
  | some list => Argument.readAll list.inside

/-- The offset at which the inside of a list that may be missing starts. -/
def ArgumentList.insideOffset : Option ArgumentList → Nat
  | none => 0
  | some list => list.gap.length + 1

namespace Snippet

/-- The parts of a text that starts with a snippet: what stands before the first mention of the
attribute, its argument list, attributes that are passed over, modifiers, a declaration, and what
follows its name. -/
structure Layout (name : Text) where
  before : Text
  list : Option ArgumentList
  passage : Text
  modifiers : List WrittenModifier
  declaration : Declaration
  gap : Text
  after : Text
  first : ∀ k < before.length,
    Attribute.isMention name ((before ++ CodePoint.scalar '@' :: name).drop k) = false
  passed : Attribute.IsPassage passage
  apart : list = none → passage ≠ []
  separated : gap ≠ []
  blank : ∀ c ∈ gap, c.isBlank
  identifier : declaration.name.isIdentifier
  ends : after.EndsWord

namespace Layout

variable {name : Text} (layout : Layout name)

/-- The mention of the attribute and its argument list. -/
def directive : Text := CodePoint.scalar '@' :: (name ++ ArgumentList.writtenOption layout.list)

/-- The keyword and the name of the declaration. -/
def declared : Text := layout.declaration.kind.keyword ++ (layout.gap ++ layout.declaration.name)

/-- The whole text. -/
def written : Text :=
  layout.before ++ (layout.directive ++ (layout.passage ++
    (WrittenModifier.writtenAll layout.modifiers ++ (layout.declared ++ layout.after))))

/-- The text up to the head of the declaration, and another head in its place. A head here is any
text that starts with a word. -/
def withHead (head : Text) : Text :=
  layout.before ++ (layout.directive ++ (layout.passage ++ head))

/-- The offset of the head of the declaration. -/
def headOffset : Nat := layout.before.length + (layout.directive.length + layout.passage.length)

/-- Attributes behind the directive, blanks before them, and modifiers before the keyword. All
conditions on a layout are kept. -/
def insert (blanks : Text) (hblanks : ∀ c ∈ blanks, c.isBlank) (attributes : List WrittenAttribute)
    (modifiers : List WrittenModifier) : Layout name :=
  { layout with
    passage := blanks ++ (WrittenAttribute.writtenAll attributes ++ layout.passage)
    modifiers := layout.modifiers ++ modifiers
    passed := (layout.passed.writtenAll_append attributes).blanks_append hblanks
    apart := fun hlist => by simp [layout.apart hlist] }

/-! ## What a layout is read as

From the front to the back, as the reader goes: the first mention, the argument list, the
attributes, the head. Each lemma says what one part is read as with anything behind it. -/

theorem isHead (modifiers : List WrittenModifier) :
    layout.declaration.IsHead (WrittenModifier.writtenAll modifiers ++ layout.declared) := by
  induction modifiers with
  | nil => exact .named layout.separated layout.blank layout.identifier
  | cons modifier more ih =>
    rw [WrittenModifier.writtenAll, List.flatMap_cons, WrittenModifier.written, List.append_assoc,
      List.append_assoc]
    exact .modified modifier.known modifier.separated modifier.blank ih

/-- What follows the attributes that are passed over starts with a word, and so with neither a
bracket nor an at sign. -/
theorem exists_cons : ∃ c more, c.isWord ∧
    WrittenModifier.writtenAll layout.modifiers ++ (layout.declared ++ layout.after) =
      c :: more := by
  obtain ⟨c, more, hhead, hc⟩ := (layout.isHead layout.modifiers).exists_cons
  exact ⟨c, more ++ layout.after, hc, by rw [← List.append_assoc, hhead, List.cons_append]⟩

theorem written_eq_withHead : layout.written =
    layout.withHead (WrittenModifier.writtenAll layout.modifiers ++
      (layout.declared ++ layout.after)) :=
  rfl

theorem withHead_eq (head : Text) : layout.withHead head = layout.before ++ CodePoint.scalar '@' ::
    (name ++ (ArgumentList.writtenOption layout.list ++ (layout.passage ++ head))) := by
  simp [withHead, directive]

/-- The name of the attribute ends where its argument list starts, or where something else does. -/
theorem endsWord_list (head : Text) :
    Text.EndsWord (ArgumentList.writtenOption layout.list ++ (layout.passage ++ head)) :=
  ArgumentList.endsWord_writtenOption fun hlist =>
    layout.passed.endsWord.append (.inl (layout.apart hlist))

/-- The first mention stands behind what precedes it. -/
theorem findMention?_withHead (hname : name.isIdentifier) (head : Text) :
    Attribute.findMention? name (layout.withHead head) = some layout.before.length := by
  have hmention : Attribute.isMention name (CodePoint.scalar '@' ::
      (name ++ (ArgumentList.writtenOption layout.list ++ (layout.passage ++ head)))) :=
    (Attribute.isMention_iff hname).2 ⟨_, rfl, layout.endsWord_list head⟩
  rw [withHead_eq, Attribute.findMention?_behind, Attribute.findMention?_of_isMention hmention]
  · rfl
  · intro k hk
    rw [Attribute.isMention_drop_append hk, layout.first k hk]

variable {head : Text}

/-- The argument list is read from the text behind the name, and so is the lack of one. What follows
is a passage and a head, which start with no round bracket. -/
theorem readArguments_withHead (hhead : ∃ c more, c.isWord ∧ head = c :: more) :
    readArguments (ArgumentList.writtenOption layout.list ++ (layout.passage ++ head)) = (do
      let arguments ← Reading.moved (ArgumentList.insideOffset layout.list)
        (ArgumentList.readOption layout.list)
      return (arguments, (ArgumentList.writtenOption layout.list).length)) := by
  cases layout.list with
  | none =>
    obtain ⟨c, more, hc, rfl⟩ := hhead
    have hround := layout.passed.head?_trimStart_ne hc more
    rw [ArgumentList.writtenOption, Option.elim_none, List.nil_append, readArguments, if_neg hround]
    rfl
  | some list =>
    rw [ArgumentList.writtenOption, Option.elim_some, ArgumentList.written_append,
      readArguments_eq list.blank (Grammar.isGroup_of_isBalanced .round list.balanced _ 0),
      list.length_written]
    rfl

/-- **A text with a directive at its place is read as the directive and the head behind it say.**
Faults of the arguments come first, and a missing declaration is blamed where the head starts. -/
theorem read_withHead (hname : name.isIdentifier) (hhead : ∃ c more, c.isWord ∧ head = c :: more) :
    read name (layout.withHead head) = (do
      let arguments ← Reading.moved (layout.before.length + 1 + name.length +
        ArgumentList.insideOffset layout.list) (ArgumentList.readOption layout.list)
      match Declaration.ofHead? head with
      | none => .error ⟨.noDeclaration, layout.headOffset⟩
      | some declaration => return ⟨⟨name, arguments⟩, declaration⟩) := by
  have hdrop : (layout.withHead head).drop (layout.before.length + 1 + name.length) =
      ArgumentList.writtenOption layout.list ++ (layout.passage ++ head) := by
    rw [withHead_eq, ← List.drop_drop, ← List.drop_drop, List.drop_left, List.drop_succ_cons,
      List.drop_zero, List.drop_left]
  have hskip : Attribute.skip (layout.passage ++ head) = .ok layout.passage.length := by
    obtain ⟨c, more, hc, rfl⟩ := hhead
    exact Attribute.skip_of_isPassage layout.passed hc more
  -- The offsets of the parts add up to that of the head.
  have hlength : layout.before.length + 1 + name.length +
      ((ArgumentList.writtenOption layout.list).length + layout.passage.length) =
        layout.headOffset := by
    simp only [headOffset, directive, List.length_append, List.length_cons]
    omega
  rw [read, layout.findMention?_withHead hname head]
  dsimp only
  rw [hdrop, readAfter, layout.readArguments_withHead hhead,
    ← Reading.moved_moved (ArgumentList.insideOffset layout.list)]
  cases ArgumentList.readOption layout.list with
  | error fault => rfl
  | ok arguments =>
    simp only [Reading.moved, bind, Except.bind, pure, Except.pure, List.drop_left, hskip,
      ← List.drop_drop]
    cases Declaration.ofHead? head with
    | none =>
      exact congrArg (fun offset => Except.error (ReadFault.mk .noDeclaration offset)) hlength
    | some declaration => rfl

/-- **A text with a layout is read as its directive and its declaration say**, whatever else is in
it. -/
theorem read_written_eq_ok_iff (hname : name.isIdentifier) {snippet : Snippet} :
    read name layout.written = .ok snippet ↔
      ∃ arguments, ArgumentList.readOption layout.list = .ok arguments ∧
        snippet = ⟨⟨name, arguments⟩, layout.declaration⟩ := by
  have hfound : Declaration.ofHead? (WrittenModifier.writtenAll layout.modifiers ++
      (layout.declared ++ layout.after)) = some layout.declaration := by
    rw [← List.append_assoc]
    exact (layout.isHead layout.modifiers).ofHead?_eq_some layout.ends
  rw [written_eq_withHead, layout.read_withHead hname layout.exists_cons,
    Reading.bind_eq_ok, hfound]
  refine exists_congr fun arguments => and_congr Reading.moved_eq_ok ?_
  exact ⟨fun h => (Except.ok.inj h).symm, fun h => congrArg Except.ok h.symm⟩

/-- Arguments are read from an argument list, or there is none, and what is used is what the list
takes. -/
theorem exists_list_of_readArguments {text : Text} {arguments : List Argument} {used : Nat}
    (h : readArguments text = .ok (arguments, used)) :
    ∃ list behind, text = ArgumentList.writtenOption list ++ behind ∧
      used = (ArgumentList.writtenOption list).length := by
  obtain ⟨gap, hgap, htext⟩ := Attribute.exists_eq_append_trimStart text
  by_cases hround : text.trimStart.head? = some (CodePoint.scalar '(')
  · obtain ⟨opened, hopened⟩ := List.head?_eq_some_iff.1 hround
    have hclose := h
    rw [readArguments, if_pos hround] at hclose
    obtain ⟨close, hclose, _⟩ := Reading.bind_eq_ok.1 hclose
    rw [Reading.moved_eq_ok, hopened] at hclose
    obtain ⟨inner, behind, rfl, hinner, _⟩ := @Text.exists_closer_of_unitEnd .round _ _ hclose
    rw [hopened] at htext
    have hread := readArguments_eq hgap (Grammar.isGroup_of_isBalanced .round hinner behind 0)
    refine ⟨some ⟨gap, inner, hgap, hinner⟩, behind, ?_, ?_⟩
    · rw [ArgumentList.writtenOption, Option.elim_some, ArgumentList.written_append]
      exact htext
    · rw [htext] at h
      obtain ⟨_, _, hused⟩ := Reading.bind_eq_ok.1 (hread.symm.trans h)
      cases hused
      exact (ArgumentList.length_written ⟨gap, inner, hgap, hinner⟩).symm
  · rw [readArguments, if_neg hround] at h
    cases h
    exact ⟨none, text, rfl, rfl⟩

/-- A head is modifiers, a keyword and a name, in the form in which layouts have them. -/
theorem exists_of_isHead {declaration : Declaration} {head : Text} (h : declaration.IsHead head) :
    declaration.name.isIdentifier ∧ ∃ modifiers gap, gap ≠ [] ∧ (∀ c ∈ gap, CodePoint.isBlank c) ∧
      head = WrittenModifier.writtenAll modifiers ++
        (declaration.kind.keyword ++ (gap ++ declaration.name)) := by
  induction h with
  | named separated blank identifier => exact ⟨identifier, [], _, separated, blank, rfl⟩
  | modified known separated blank _ ih =>
    obtain ⟨hidentifier, modifiers, gap, hgap, hblank, rfl⟩ := ih
    refine ⟨hidentifier, ⟨_, _, known, separated, blank⟩ :: modifiers, gap, hgap, hblank, ?_⟩
    simp [WrittenModifier.writtenAll, WrittenModifier.written]

/-- **A text from which a snippet is read has a layout.** Its parts are what the reader has gone
over, one after the other. -/
theorem exists_written_eq {text : Text} {snippet : Snippet} (hname : name.isIdentifier)
    (h : read name text = .ok snippet) : ∃ layout : Layout name, layout.written = text := by
  obtain ⟨offset, hmention, hafter⟩ := read_eq_ok_iff.1 h
  obtain ⟨before, rest, rfl, rfl, hends, hfirst⟩ := Attribute.exists_of_findMention? hname hmention
  rw [← List.drop_drop, ← List.drop_drop, List.drop_left, List.drop_succ_cons, List.drop_zero,
    List.drop_left] at hafter
  obtain ⟨arguments, used, skipped, declaration, hread, hskip, hfound, rfl⟩ :=
    readAfter_eq_ok_iff.1 hafter
  obtain ⟨list, behind, rfl, rfl⟩ := exists_list_of_readArguments hread
  rw [List.drop_left] at hskip hfound
  obtain ⟨head, after, hhead, hisHead, hafterEnds⟩ :=
    Declaration.exists_isHead_of_trimStart_eq hfound (Attribute.trimStart_drop_of_skip hskip)
  obtain ⟨c, more, hcons, hc⟩ := hisHead.exists_cons
  have hstart : head ++ after = c :: (more ++ after) := by rw [hcons, List.cons_append]
  obtain ⟨passage, hbehind, hpassage⟩ := Attribute.exists_isPassage_of_skip hskip
    (hhead.trans hstart) hc
  rw [← hstart] at hbehind
  obtain ⟨hidentifier, modifiers, gap, hgap, hblank, rfl⟩ := exists_of_isHead hisHead
  -- Without an argument list, the declaration must not go on with the name of the attribute.
  have hapart : list = none → passage ≠ [] := by
    rintro rfl rfl
    rw [hbehind, List.nil_append, hstart] at hends
    have hword : c.isWord = false := hends
    rw [hc] at hword
    cases hword
  refine ⟨⟨before, list, passage, modifiers, declaration, gap, after, hfirst, hpassage, hapart,
    hgap, hblank, hidentifier, hafterEnds⟩, ?_⟩
  rw [hbehind, written_eq_withHead, withHead_eq, declared]
  simp only [List.append_assoc]

end Layout

/-- **Attributes behind the directive and modifiers before the keyword have no say.** A text from
which a snippet is read has a layout, and the same snippet is read from it with any attributes
inserted behind the directive, blanks before them, and any modifiers before the keyword. -/
theorem read_insert {name text : Text} {snippet : Snippet} (hname : name.isIdentifier)
    (h : read name text = .ok snippet) :
    (∃ layout : Layout name, layout.written = text) ∧
      ∀ (layout : Layout name) (blanks : Text) (attributes : List WrittenAttribute)
        (modifiers : List WrittenModifier), layout.written = text → (∀ c ∈ blanks, c.isBlank) →
        read name (layout.before ++ layout.directive ++
          (blanks ++ WrittenAttribute.writtenAll attributes) ++
          (layout.passage ++ WrittenModifier.writtenAll layout.modifiers) ++
          WrittenModifier.writtenAll modifiers ++ (layout.declared ++ layout.after)) =
            .ok snippet := by
  refine ⟨Layout.exists_written_eq hname h, ?_⟩
  rintro layout blanks attributes modifiers rfl hblanks
  rw [layout.read_written_eq_ok_iff hname] at h
  have hread :=
    ((layout.insert blanks hblanks attributes modifiers).read_written_eq_ok_iff hname).2 h
  have htext : (layout.insert blanks hblanks attributes modifiers).written =
      layout.before ++ layout.directive ++ (blanks ++ WrittenAttribute.writtenAll attributes) ++
        (layout.passage ++ WrittenModifier.writtenAll layout.modifiers) ++
        WrittenModifier.writtenAll modifiers ++ (layout.declared ++ layout.after) := by
    simp [Layout.written, Layout.insert, Layout.directive, Layout.declared,
      WrittenModifier.writtenAll]
  rwa [htext] at hread

/-- A modifier before others, and attributes before another one, of which the first mentions the
directive and closes a bracket in a string. -/
theorem read_insert_recipe :
    ∃ layout : Layout "Mark", layout.written = "@Mark(1) @Other\tfinal class Recipe<T>" ∧
      read "Mark" "@Mark(1) @Other\tfinal class Recipe<T>" =
        .ok ⟨⟨"Mark", [⟨none, .raw "1"⟩]⟩, ⟨.classType, "Recipe"⟩⟩ ∧
      read "Mark" "@Mark(1) @a (\"@Mark )\") @b  @Other\tfinal public class Recipe<T>" =
        .ok ⟨⟨"Mark", [⟨none, .raw "1"⟩]⟩, ⟨.classType, "Recipe"⟩⟩ := by
  have hread : read "Mark" "@Mark(1) @Other\tfinal class Recipe<T>" =
      .ok ⟨⟨"Mark", [⟨none, .raw "1"⟩]⟩, ⟨.classType, "Recipe"⟩⟩ := by decide +kernel
  have hblank : ∀ c ∈ ([' '] : Text), c.isBlank := by decide
  let layout : Layout "Mark" :=
    { before := [], list := some ⟨[], ['1'], by simp, .cons rfl .nil⟩, passage := " @Other\t"
      modifiers := [⟨"final", [' '], by decide, by decide, hblank⟩]
      declaration := ⟨.classType, "Recipe"⟩
      gap := [' '], after := "<T>", first := by simp
      passed := @Attribute.IsPassage.bare [' '] "Other" ['\t'] hblank (by decide) (by simp)
        (.blank (by decide))
      apart := by simp, separated := by simp, blank := hblank, identifier := by decide
      ends := rfl }
  let listed : WrittenAttribute :=
    ⟨"a", some ⟨[' '], ['"', '@', 'M', 'a', 'r', 'k', ' ', ')', '"'], hblank,
      by repeat (first | exact .nil | refine .cons rfl ?_)⟩, [' '], by decide, by simp, hblank⟩
  let bare : WrittenAttribute := ⟨"b", none, [' '], by decide, by simp, hblank⟩
  refine ⟨layout, rfl, hread, ?_⟩
  exact (read_insert (by decide) hread).2 layout [' '] [listed, bare]
    [⟨"public", [' '], by decide, by simp, hblank⟩] rfl hblank

end Snippet

end MemberSynthesis
