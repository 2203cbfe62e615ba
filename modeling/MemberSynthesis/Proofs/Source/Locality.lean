import Mathlib.Data.List.DropRight
import MemberSynthesis.Proofs.Source.Faults
import MemberSynthesis.Proofs.Source.Grammar
import MemberSynthesis.Proofs.Source.Head
import MemberSynthesis.Proofs.Source.Writing

/-!
# Reading is local

A snippet is read from the text between the mention of the attribute and the name of the
declaration, and from nothing else. What stands before the mention only shifts the faults, and what
stands behind the name has no say unless it goes on with it (`Snippet.read_local`).

Some parts of the reader look ahead: a quote at two more code points, a mention and the name at one.
So it is followed part by part how far each of them looks: a mention that does not end the text is
one whatever comes after the text (`Attribute.isMention_append`), an argument list ends at its
bracket (`Snippet.readArguments_append`), and attributes are passed over up to a code point that
starts none (`Attribute.skip_append`).

Only a reading that succeeds is local to the right. A fault is not: a text that is appended can
close a bracket or a string that was missing its end, or bring the declaration. To the left both
are, because the first mention decides where reading starts; and the fault that says that there is
no mention is the one that is not moved, as it has no place (`ReadFault.behind`).
-/

set_option autoImplicit false

namespace MemberSynthesis

variable {name text : Text} {offset : Nat}

/-- **A group in brackets ends where it does, whatever follows the text.** -/
theorem Text.unitEnd_append (kind : Bracket) {rest : Text} {last : Nat}
    (h : Text.unitEnd (CodePoint.scalar kind.opener :: rest) = .ok last) (after : Text) :
    Text.unitEnd (CodePoint.scalar kind.opener :: rest ++ after) = .ok last := by
  obtain ⟨inner, more, rfl, hinner, rfl⟩ := Text.exists_closer_of_unitEnd h
  have hgroup := Grammar.isGroup_of_isBalanced kind hinner (more ++ after) 0
  rw [List.cons_append, List.append_assoc, List.cons_append, Text.unitEnd, hgroup.unitEndFrom,
    Nat.zero_add, Nat.add_comm 1]

/-! ## The mention of the attribute

A mention ends at a word boundary, which depends on the code point behind it. That is the one code
point by which a mention looks ahead. -/

namespace Attribute

/-- A mention that does not reach the end of a text is one whatever follows the text. -/
theorem isMention_append (h : name.length + 1 < text.length) (after : Text) :
    isMention name (text ++ after) = isMention name text := by
  have hprefix : (CodePoint.scalar '@' :: name).isPrefixOf (text ++ after) =
      (CodePoint.scalar '@' :: name).isPrefixOf text := by
    rw [Bool.eq_iff_iff, List.isPrefixOf_iff_prefix, List.isPrefixOf_iff_prefix]
    constructor
    · intro hmention
      exact List.prefix_of_prefix_length_le hmention (List.prefix_append text after)
        (Nat.le_of_lt h)
    · intro hmention
      exact hmention.trans (List.prefix_append text after)
  have hnext : ((text ++ after).drop (CodePoint.scalar '@' :: name).length).head? =
      (text.drop (CodePoint.scalar '@' :: name).length).head? := by
    rw [List.head?_drop, List.head?_drop]
    exact List.getElem?_append_left h
  rw [isMention, isMention, hprefix, meetsAtBoundary, meetsAtBoundary, hnext]

/-- **The first mention is the first one whatever follows the text**, if it does not reach the
end. -/
theorem findMention?_append (h : findMention? name text = some offset)
    (hend : offset + 1 + name.length < text.length) (after : Text) :
    findMention? name (text ++ after) = some offset := by
  induction text generalizing offset with
  | nil => cases h
  | cons c rest ih =>
    have hlength : name.length + 1 < (c :: rest).length := by omega
    have hmention : isMention name (c :: (rest ++ after)) = isMention name (c :: rest) :=
      isMention_append hlength after
    rw [findMention?] at h
    rw [List.cons_append, findMention?, hmention]
    split at h
    · rename_i hhere
      rw [if_pos hhere, h]
    · rename_i hhere
      obtain ⟨found, hfound, rfl⟩ := Option.map_eq_some_iff.1 h
      rw [List.length_cons] at hend
      rw [if_neg hhere, ih hfound (by omega), Option.map_some]

/-- **Where no mention starts, nothing is found**, and the search goes on behind. A mention that
would start in front and end behind counts as one that starts there. -/
theorem findMention?_behind {before : Text}
    (h : ∀ k < before.length, isMention name ((before ++ text).drop k) = false) :
    findMention? name (before ++ text) = (findMention? name text).map (before.length + ·) := by
  induction before with
  | nil => simp
  | cons c before ih =>
    have hhere := h 0 (Nat.succ_pos _)
    have hmore : ∀ k < before.length, isMention name ((before ++ text).drop k) = false :=
      fun k hk =>
      h (k + 1) (Nat.succ_lt_succ hk)
    rw [List.drop_zero, List.cons_append] at hhere
    rw [List.cons_append, findMention?, if_neg (by simp [hhere]), ih hmore, Option.map_map]
    congr 1
    funext found
    simp only [Function.comp_apply, List.length_cons]
    omega

/-! ## Attributes that are passed over

The reader of attributes trims the text before each of them, so that its progress is counted in
blanks and in code points. `skip_eq_ok_iff` says what one turn of it does, and `skip_induction` is
the induction over its turns. -/

/-- An argument list, or its absence, can be told at the first code point, and it ends at its
bracket. -/
theorem argumentListLength_append {taken : Nat} (h : argumentListLength text = .ok taken)
    (hne : text ≠ []) (after : Text) : argumentListLength (text ++ after) = .ok taken := by
  obtain ⟨c, rest, rfl⟩ := List.exists_cons_of_ne_nil hne
  rw [argumentListLength, List.head?_cons] at h
  rw [argumentListLength, List.cons_append, List.head?_cons]
  split at h
  · rename_i hround
    obtain rfl : c = CodePoint.scalar '(' := by simpa using hround
    obtain ⟨close, hclose, htaken⟩ := Reading.bind_eq_ok.1 h
    rw [if_pos rfl, ← List.cons_append]
    exact Reading.bind_eq_ok.2 ⟨close, Text.unitEnd_append .round hclose after, htaken⟩
  · rename_i hround
    rw [if_neg hround]
    exact h

/-- A name that does not end the text ends where it did. -/
theorem splitName?_append {passed rest : Text} (h : splitName? text = some (passed, rest))
    (hrest : rest ≠ []) (after : Text) :
    splitName? (text ++ after) = some (passed, rest ++ after) := by
  cases text with
  | nil => cases h
  | cons c more =>
    rw [splitName?] at h
    rw [List.cons_append, splitName?]
    split at h
    · rename_i hmark
      rw [if_pos hmark, Identifier.split?_append h (.inl hrest)]
    · cases h

theorem drop_passed {passed rest : Text} (h : splitName? text.trimStart = some (passed, rest))
    (taken more : Nat) :
    text.drop (text.length - rest.length + rest.leadingBlanks + taken + more) =
      (rest.trimStart.drop taken).drop more := by
  rw [← List.drop_drop, ← List.drop_drop, drop_of_splitName? h]

/-- Attributes are passed over one by one: blanks, a name, blanks and an argument list, if there is
one. -/
theorem skip_eq_ok_iff {skipped : Nat} :
    skip text = .ok skipped ↔
      (splitName? text.trimStart = none ∧ skipped = text.leadingBlanks) ∨
      ∃ passed rest taken more, splitName? text.trimStart = some (passed, rest) ∧
        argumentListLength rest.trimStart = .ok taken ∧
        skip (rest.trimStart.drop taken) = .ok more ∧
        skipped = text.length - rest.length + rest.leadingBlanks + taken + more := by
  cases hname : splitName? text.trimStart with
  | none => simp [skip_of_splitName?_none hname, eq_comm]
  | some found =>
    obtain ⟨passed, rest⟩ := found
    rw [skip_of_splitName? hname]
    constructor
    · intro h
      obtain ⟨taken, htaken, hrest⟩ := Reading.bind_eq_ok.1 h
      obtain ⟨more, hmore, hsum⟩ := Reading.bind_eq_ok.1 hrest
      cases hsum
      exact .inr ⟨passed, rest, taken, more, rfl, Reading.moved_eq_ok.1 htaken,
        Reading.moved_eq_ok.1 hmore, rfl⟩
    · rintro (⟨hnone, _⟩ | ⟨_, _, taken, more, hsome, htaken, hmore, rfl⟩)
      · cases hnone
      · cases hsome
        exact Reading.bind_eq_ok.2 ⟨taken, Reading.moved_eq_ok.2 htaken,
          Reading.bind_eq_ok.2 ⟨more, Reading.moved_eq_ok.2 hmore, rfl⟩⟩

/-- Induction on the attributes that are passed over: there is none, or there is one and what is
passed over behind it. -/
theorem skip_induction {motive : Text → Nat → Prop}
    (ends : ∀ text : Text, splitName? text.trimStart = none → motive text text.leadingBlanks)
    (passes : ∀ (text passed rest : Text) (taken more : Nat),
      splitName? text.trimStart = some (passed, rest) →
      argumentListLength rest.trimStart = .ok taken →
      motive (rest.trimStart.drop taken) more →
      motive text (text.length - rest.length + rest.leadingBlanks + taken + more))
    {text : Text} {skipped : Nat} (h : skip text = .ok skipped) : motive text skipped := by
  rcases skip_eq_ok_iff.1 h with ⟨hnone, rfl⟩ |
    ⟨passed, rest, taken, more, hsome, htaken, hmore, rfl⟩
  · exact ends text hnone
  · have hshorter : (rest.trimStart.drop taken).length < text.length := by
      have hrest := length_of_splitName? hsome
      have htrim := Text.length_trimStart_le rest
      have htext := Text.length_trimStart_le text
      rw [List.length_drop]
      omega
    exact passes text passed rest taken more hsome htaken (skip_induction ends passes hmore)
termination_by text.length
decreasing_by exact hshorter

/-- Where passing over attributes ends, no blank follows, since blanks are passed over with them. -/
theorem trimStart_drop_of_skip {skipped : Nat} (h : skip text = .ok skipped) :
    Text.trimStart (text.drop skipped) = text.drop skipped := by
  refine skip_induction (motive := fun text skipped =>
    Text.trimStart (text.drop skipped) = text.drop skipped) ?_ ?_ h
  · intro text _
    rw [Text.drop_leadingBlanks]
    exact List.dropWhile_idempotent _ _
  · intro text passed rest taken more hsome _ ih
    rw [drop_passed hsome, ih]

/-- **Attributes are passed over as before whatever follows the text**, if they end at a code point
that starts none. -/
theorem skip_append {skipped : Nat} (h : skip text = .ok skipped)
    (hends : ∃ c more, text.drop skipped = c :: more ∧ c ≠ '@') (after : Text) :
    skip (text ++ after) = .ok skipped := by
  revert hends
  -- The attributes in front are not at the end of the text, as a code point follows all of them.
  refine skip_induction (motive := fun text skipped =>
    (∃ c more, text.drop skipped = c :: more ∧ c ≠ '@') →
      skip (text ++ after) = .ok skipped) ?_ ?_ h
  · rintro text _ ⟨c, more, hdrop, hc⟩
    rw [Text.drop_leadingBlanks] at hdrop
    have hfilled : text.trimStart ≠ [] := hdrop ▸ List.cons_ne_nil c more
    have hnone : splitName? (text ++ after).trimStart = none := by
      rw [Text.trimStart_append_of_ne_nil hfilled, hdrop, List.cons_append, splitName?, if_neg hc]
    rw [skip_of_splitName?_none hnone, Text.leadingBlanks_append_of_ne_nil hfilled]
  · rintro text passed rest taken more hsome htaken ih ⟨c, behind, hdrop, hc⟩
    rw [drop_passed hsome] at hdrop
    have hrest : rest.trimStart ≠ [] := by
      intro hnil
      simp [hnil] at hdrop
    have htext : text.trimStart ≠ [] := by
      intro hnil
      rw [hnil] at hsome
      cases hsome
    have hne : rest ≠ [] := by
      rintro rfl
      exact hrest rfl
    refine skip_eq_ok_iff.2 (.inr ⟨passed, rest ++ after, taken, more, ?_, ?_, ?_, ?_⟩)
    · rw [Text.trimStart_append_of_ne_nil htext, splitName?_append hsome hne]
    · rw [Text.trimStart_append_of_ne_nil hrest, argumentListLength_append htaken hrest]
    · rw [Text.trimStart_append_of_ne_nil hrest,
        List.drop_append_of_le_length (le_of_argumentListLength htaken)]
      exact ih ⟨c, behind, hdrop, hc⟩
    · rw [Text.leadingBlanks_append_of_ne_nil hrest, List.length_append, List.length_append,
        Nat.add_sub_add_right]

end Attribute

/-! ## Snippets

The parts put in a row. From the mention on, each part is read where the one before it ends. -/

/-- The fault as it is where another text stands before the one that was read. That the directive is
missing concerns no place in the text, and so it is the same fault. -/
def ReadFault.behind (before : Text) (fault : ReadFault) : ReadFault :=
  match fault.cause with
  | .noDirective _ => fault
  | _ => { fault with offset := before.length + fault.offset }

/-- No fault that stands in a text is about a missing directive. -/
theorem ReadFault.IsPlacedIn.behind_eq {fault : ReadFault} (h : fault.IsPlacedIn text)
    (before : Text) (start : Nat) :
    ReadFault.behind before { fault with offset := start + fault.offset } =
      { fault with offset := before.length + (start + fault.offset) } := by
  obtain ⟨cause, offset⟩ := fault
  obtain ⟨_, _, _, _, hstands⟩ := h
  cases cause with
  | noDirective name => exact absurd hstands id
  | _ => rfl

namespace Snippet

variable {before after : Text} {snippet : Snippet}

/-- **An argument list is read as before whatever follows the text**, if the text is not blank. -/
theorem readArguments_append {arguments : List Argument} {used : Nat}
    (h : readArguments text = .ok (arguments, used)) (hfilled : text.trimStart ≠ [])
    (after : Text) :
    readArguments (text ++ after) = .ok (arguments, used) := by
  by_cases hround : text.trimStart.head? = some (CodePoint.scalar '(')
  · obtain ⟨rest, hrest⟩ := List.head?_eq_some_iff.1 hround
    have hclose := h
    rw [readArguments, if_pos hround] at hclose
    obtain ⟨close, hclose, _⟩ := Reading.bind_eq_ok.1 hclose
    rw [Reading.moved_eq_ok, hrest] at hclose
    obtain ⟨inner, more, rfl, hinner, _⟩ := @Text.exists_closer_of_unitEnd .round _ _ hclose
    have htext := Text.takeWhile_append_trimStart text
    have hblanks : ∀ c ∈ text.takeWhile CodePoint.isBlank, c.isBlank := fun c =>
      Text.isBlank_of_mem_takeWhile
    -- The group ends in the text, and the arguments are read from what it holds.
    have hgroup := Grammar.isGroup_of_isBalanced .round hinner
    rw [← htext, hrest] at h ⊢
    have harguments := readArguments_eq hblanks (hgroup more 0)
    rw [List.append_assoc, List.cons_append, List.append_assoc, List.cons_append]
    exact (readArguments_eq hblanks (hgroup (more ++ after) 0)).trans (harguments.symm.trans h)
  · rw [readArguments, if_neg hround] at h
    have hhead : (text ++ after).trimStart.head? = text.trimStart.head? := by
      rw [Text.trimStart_append_of_ne_nil hfilled, List.head?_append_of_ne_nil _ hfilled]
    rw [readArguments, hhead, if_neg hround, h]

/-- The reader has come to this offset when it looks for the declaration. Whether one stands there
is not said. -/
def DeclarationStartsAt (name text : Text) (start : Nat) : Prop :=
  ∃ offset arguments used skipped,
    Attribute.findMention? name text = some offset ∧
    readArguments (text.drop (offset + 1 + name.length)) = .ok (arguments, used) ∧
    Attribute.skip (text.drop (offset + 1 + name.length + used)) = .ok skipped ∧
    start = offset + 1 + name.length + used + skipped

/-- The text ends with the name of the declaration that the snippet in it has: the head of it
reaches to the end. -/
def EndsWithName (name text : Text) : Prop :=
  ∃ start declaration, DeclarationStartsAt name text start ∧
    Declaration.IsHead declaration (text.drop start)

/-- A text that ends with the name of a declaration ends with a word character, so that a word
character behind it would go on with the name. -/
theorem EndsWithName.getLast?_eq (h : EndsWithName name text) :
    ∃ c, text.getLast? = some c ∧ c.isWord := by
  obtain ⟨start, declaration, _, hhead⟩ := h
  obtain ⟨c, hlast, hc⟩ := hhead.getLast?_eq
  refine ⟨c, ?_, hc⟩
  rw [← List.take_append_drop start text, List.getLast?_append, hlast]
  rfl

/-- **What stands before the first mention of the attribute only shifts the faults.** -/
theorem read_behind
    (h : ∀ k < before.length, Attribute.isMention name ((before ++ text).drop k) = false) :
    read name (before ++ text) = (read name text).mapError (ReadFault.behind before) := by
  rw [read, Attribute.findMention?_behind h, read]
  cases hmention : Attribute.findMention? name text with
  | none => rfl
  | some offset =>
    have hstart : before.length + offset + 1 + name.length =
        before.length + (offset + 1 + name.length) := by omega
    simp only [Option.map_some]
    rw [hstart, List.drop_length_add_append, ← Reading.moved_moved]
    cases hread : readAfter name (text.drop (offset + 1 + name.length)) with
    | ok snippet => rfl
    | error fault =>
      have hplaced := isPlacedIn_readAfter name _ fault hread
      exact congrArg Except.error (hplaced.behind_eq before _).symm

/-- Behind the name of the attribute, everything is read as before whatever follows the text, if the
name of the declaration still ends where it did. -/
theorem readAfter_append {arguments : List Argument} {used skipped : Nat}
    {declaration : Declaration}
    {head rest : Text} (hread : readArguments text = .ok (arguments, used))
    (hskip : Attribute.skip (text.drop used) = .ok skipped)
    (hdrop : text.drop (used + skipped) = head ++ rest) (hhead : declaration.IsHead head)
    (hends : Text.EndsWord (rest ++ after)) :
    readAfter name (text ++ after) = .ok ⟨⟨name, arguments⟩, declaration⟩ := by
  obtain ⟨c, more, hcons, hc⟩ := hhead.exists_cons
  have hnext : text.drop (used + skipped) = c :: (more ++ rest) := by
    rw [hdrop, hcons, List.cons_append]
  have hlength : used + skipped < text.length := by
    have h := congrArg List.length hnext
    rw [List.length_drop, List.length_cons] at h
    omega
  have hmark : c ≠ '@' := by
    rintro rfl
    exact absurd hc (by decide)
  -- The head of the declaration stands behind, so the text is not blank and does not end early.
  have hfilled : text.trimStart ≠ [] := by
    intro hnil
    have hmem : c ∈ text.drop (used + skipped) := hnext ▸ List.mem_cons_self
    have hblank := Text.trimStart_eq_nil_iff.1 hnil c (List.mem_of_mem_drop hmem)
    rw [CodePoint.isBlank_eq_false_of_isWord hc] at hblank
    cases hblank
  refine readAfter_eq_ok_iff.2 ⟨arguments, used, skipped, declaration,
    readArguments_append hread hfilled after, ?_, ?_, rfl⟩
  · rw [List.drop_append_of_le_length (by omega)]
    refine Attribute.skip_append hskip ⟨c, more ++ rest, ?_, hmark⟩ after
    rw [List.drop_drop, hnext]
  · rw [List.drop_drop, List.drop_append_of_le_length (Nat.le_of_lt hlength), hdrop,
      List.append_assoc]
    exact hhead.ofHead?_eq_some hends

/-- **What stands behind the name of the declaration has no say**, unless it goes on with the
name. -/
theorem read_append (h : read name text = .ok snippet)
    (hends : after.EndsWord ∨ ¬ EndsWithName name text) :
    read name (text ++ after) = .ok snippet := by
  obtain ⟨offset, hmention, hafter⟩ := read_eq_ok_iff.1 h
  obtain ⟨arguments, used, skipped, declaration, hread, hskip, hfound, rfl⟩ :=
    readAfter_eq_ok_iff.1 hafter
  obtain ⟨head, rest, hdrop, hhead, hrest⟩ :=
    Declaration.exists_isHead_of_trimStart_eq hfound (Attribute.trimStart_drop_of_skip hskip)
  rw [List.drop_drop] at hdrop
  -- If nothing follows the name, the text ends with it.
  have hend : rest ≠ [] ∨ after.EndsWord := by
    refine hends.symm.imp_left ?_
    rintro hname rfl
    refine hname ⟨offset + 1 + name.length + used + skipped, declaration,
      ⟨offset, arguments, used, skipped, hmention, hread, ?_, rfl⟩, ?_⟩
    · rw [← List.drop_drop, hskip]
    · rw [List.append_nil, List.drop_drop, ← Nat.add_assoc] at hdrop
      rwa [hdrop]
  -- The mention does not reach the end, for the head of the declaration follows it.
  have hlength : offset + 1 + name.length < text.length := by
    obtain ⟨c, more, hcons, _⟩ := hhead.exists_cons
    have hcount := congrArg List.length hdrop
    rw [hcons, List.drop_drop, List.length_drop, List.length_append, List.length_cons] at hcount
    omega
  refine read_eq_ok_iff.2 ⟨offset, Attribute.findMention?_append hmention hlength after, ?_⟩
  rw [List.drop_append_of_le_length (Nat.le_of_lt hlength)]
  exact readAfter_append hread hskip hdrop hhead (hrest.append hend)

/-- **Reading is local.** What stands before the first mention of the attribute shifts the faults
and does nothing else. What stands behind a snippet has no say, unless the name of the declaration
ends the text and a word character follows. -/
theorem read_local (name text : Text) :
    (∀ before : Text,
      (∀ k < before.length, Attribute.isMention name ((before ++ text).drop k) = false) →
      read name (before ++ text) = (read name text).mapError (ReadFault.behind before)) ∧
    ∀ (snippet : Snippet) (after : Text), read name text = .ok snippet →
      after.EndsWord ∨ ¬ EndsWithName name text →
      read name (text ++ after) = .ok snippet :=
  ⟨fun _ => read_behind, fun _ _ => read_append⟩

/-- Brackets and quotes before the mention, and what follows a colon behind the name. -/
theorem read_local_recipe :
    read "Mark" ("(\" @Marked " ++ "@Mark(\"a\") class Recipe") =
        .ok ⟨⟨"Mark", [⟨none, .string "a" false⟩]⟩, ⟨.classType, "Recipe"⟩⟩ ∧
      read "Mark" ("(\" @Marked " ++ "@Mark(\"a\", , 1)") = .error ⟨.noExpression, 22⟩ ∧
      read "Mark" ("(\" @Marked " ++ "@Marks") = .error ⟨.noDirective "Mark", 0⟩ ∧
      read "Mark" ("@Mark(\"a\") class Recipe" ++ "(\" @Mark") =
        .ok ⟨⟨"Mark", [⟨none, .string "a" false⟩]⟩, ⟨.classType, "Recipe"⟩⟩ ∧
      read "Mark" ("@Mark(\"a\") class Recipe:" ++ "Codable") =
        .ok ⟨⟨"Mark", [⟨none, .string "a" false⟩]⟩, ⟨.classType, "Recipe"⟩⟩ := by
  have hread : read "Mark" "@Mark(\"a\") class Recipe" =
      .ok ⟨⟨"Mark", [⟨none, .string "a" false⟩]⟩, ⟨.classType, "Recipe"⟩⟩ := by decide +kernel
  have hcolon : read "Mark" "@Mark(\"a\") class Recipe:" =
      .ok ⟨⟨"Mark", [⟨none, .string "a" false⟩]⟩, ⟨.classType, "Recipe"⟩⟩ := by decide +kernel
  have hblank : read "Mark" "@Mark(\"a\", , 1)" = .error ⟨.noExpression, 11⟩ := by decide +kernel
  have hnothing : read "Mark" "@Marks" = .error ⟨.noDirective "Mark", 0⟩ := by decide +kernel
  have hname : ¬ EndsWithName "Mark" "@Mark(\"a\") class Recipe:" := by
    intro hends
    obtain ⟨c, hlast, hc⟩ := hends.getLast?_eq
    have hend : List.getLast? ("@Mark(\"a\") class Recipe:" : Text) =
        some (CodePoint.scalar ':') := by
      decide +kernel
    obtain rfl : c = CodePoint.scalar ':' := Option.some.inj (hlast.symm.trans hend)
    exact absurd hc (by decide)
  refine ⟨?_, ?_, ?_, ?_, ?_⟩
  · rw [(read_local "Mark" _).1 _ (by decide +kernel), hread]
    rfl
  · rw [(read_local "Mark" _).1 _ (by decide +kernel), hblank]
    decide +kernel
  · rw [(read_local "Mark" _).1 _ (by decide +kernel), hnothing]
    rfl
  · exact (read_local "Mark" _).2 _ _ hread (.inl rfl)
  · exact (read_local "Mark" _).2 _ _ hcolon (.inr hname)

end Snippet

end MemberSynthesis
