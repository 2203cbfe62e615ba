import MemberSynthesis.Proofs.Source.Head
import MemberSynthesis.Proofs.Source.Literal
import MemberSynthesis.Source.Snippet

/-!
# Writing and reading snippets

An attribute with literals for arguments, and the head of the declaration it is attached to, are
written out and **read back as they were** (`read_written`): the labels and literals of the
arguments, and the kind and name of the declaration. What follows the name of the declaration does
not matter, as long as the name ends there.

A round trip through a reader that splits first and reads then has three parts, and each is the
subject of its own lemmas.

* The text of an argument is a piece: no comma in it is outside of brackets and strings, so that the
  list is split where the commas between the arguments stand (`isPiece_written`).
* The piece is read as the argument it was written from, whatever space precedes it
  (`read_of_holds`).
* The list closes at its own bracket (`isGroup_writtenAll`), so that the declaration is looked for
  at the right place.

For literals the first two are known from the module on literals. What is added here is the label,
which is a word and a colon and disturbs nothing, and the declaration behind the list.
-/

set_option autoImplicit false

namespace MemberSynthesis

/-! ## Arguments

An argument is a label, if it has one, and a literal. What holds of the literal holds of the
argument, because a label holds neither brackets nor quotes nor commas. -/

/-- An argument that a literal is given for. Its label, if there is one, is an identifier, as
nothing else would be read as one. -/
structure LiteralArgument where
  label : Option Text
  literal : Literal
  spelled : ∀ text ∈ label, text.isIdentifier

namespace LiteralArgument

/-- What precedes the literal: the label, a colon and a space, or nothing. -/
def labelled (argument : LiteralArgument) : Text :=
  match argument.label with
  | none => []
  | some label => label ++ ": "

/-- The argument as it is written. -/
def written (argument : LiteralArgument) : Text := argument.labelled ++ argument.literal.written

/-- The argument that is read from the text it is written as. -/
def argument (argument : LiteralArgument) : Argument :=
  ⟨argument.label, argument.literal.expression⟩

/-- Nothing in front of the literal opens or closes anything, or separates items. -/
theorem isPlain_of_mem_labelled (argument : LiteralArgument) {c : CodePoint}
    (hc : c ∈ argument.labelled) : Opening.isPlain c ∧ c ≠ ',' := by
  obtain ⟨label, literal, hspelled⟩ := argument
  cases label with
  | none => cases hc
  | some label =>
    rcases List.mem_append.1 hc with hc | hc
    · exact Opening.isPlain_of_isWord (Text.isWord_of_mem (hspelled label rfl) hc)
    · have hcolon : ∀ d ∈ (": " : Text), Opening.isPlain d ∧ d ≠ ',' := by decide
      exact hcolon c hc

/-- The text of an argument is one item of a list, and not several. -/
theorem isPiece_written (argument : LiteralArgument) : Item.IsPiece argument.written := by
  refine Item.isPiece_append ?_ argument.literal.isPiece_written
  intro c hc
  exact argument.isPlain_of_mem_labelled hc

/-- The text of an argument leaves what is open as it was, whatever is open around it. -/
theorem within_written (argument : LiteralArgument) {rest : Text} {outer : List Opening}
    {offset : Nat} (hne : outer ≠ []) (houter : Opening.IsOutside outer)
    (hrest : rest.head? ≠ some (CodePoint.scalar '"')) :
    Opening.Within rest outer offset argument.written outer := by
  refine (Opening.within_of_isPlain hne houter fun c hc =>
    (argument.isPlain_of_mem_labelled hc).1).append ?_
  rw [Literal.written_eq]
  exact (argument.literal.isGroup_written houter hrest).within hne

theorem isTrimmed_written (argument : LiteralArgument) : argument.written.IsTrimmed := by
  have hliteral := argument.literal.isTrimmed_written
  obtain ⟨label, literal, hspelled⟩ := argument
  cases label with
  | none => exact hliteral
  | some label =>
    obtain ⟨c, more, hlabel, hc⟩ := (Text.isTrimmed_of_isIdentifier (hspelled label rfl)).first
    obtain ⟨before, d, hd, hblank⟩ := hliteral.last
    constructor
    · exact ⟨c, more ++ ": " ++ literal.written, by simp [written, labelled, hlabel], hc⟩
    · exact ⟨label ++ ": " ++ before, d, by simp [written, labelled, hd], hblank⟩

theorem trimStart_of_holds {item : Item} {text : Text} (hitem : item.Holds text)
    (htrimmed : text.IsTrimmed) : item.text.trimStart = text := by
  rcases hitem with heq | heq
  · rw [heq, htrimmed.trimStart_eq]
  · rw [heq, Text.trimStart_cons_of_isBlank (by decide), htrimmed.trimStart_eq]

/-- **An argument is read as it was written**, a space possibly before it. Its label is cut off in
front of the colon. Without a label, the literal starts with a quote or a bracket, and nothing is
cut off. -/
theorem read_of_holds (argument : LiteralArgument) {item : Item}
    (hitem : item.Holds argument.written) :
    Argument.read item.text = .ok argument.argument := by
  have hstart := trimStart_of_holds hitem argument.isTrimmed_written
  obtain ⟨label, literal, hspelled⟩ := argument
  have hliteral := literal.readTrimmed_written
  cases label with
  | none =>
    have hsplit : Argument.splitLabel? item.text = none := by
      rw [Argument.splitLabel?, hstart]
      cases literal <;> rfl
    rw [Argument.read, hsplit]
    show (Expression.read item.text >>= _) = _
    rw [Literal.read_of_holds hitem literal.isTrimmed_written hliteral]
    rfl
  | some label =>
    have hsplit : Argument.splitLabel? item.text =
        some (label, CodePoint.scalar ' ' :: literal.written) := by
      have hlabel : Identifier.split? (label ++ ((": " : Text) ++ literal.written)) =
          some (label, (": " : Text) ++ literal.written) :=
        Identifier.split?_eq_some_iff.2 ⟨hspelled label rfl, by exact rfl, rfl⟩
      have htext : written ⟨some label, literal, hspelled⟩ =
          label ++ ((": " : Text) ++ literal.written) :=
        List.append_assoc _ _ _
      rw [Argument.splitLabel?, hstart, htext, hlabel]
      rfl
    -- Behind the colon, the literal stands with a space before it, as an item does.
    have hvalue : (⟨0, CodePoint.scalar ' ' :: literal.written⟩ : Item).Holds literal.written :=
      .inr rfl
    rw [Argument.read, hsplit]
    show (Reading.moved _ (Expression.read (CodePoint.scalar ' ' :: literal.written)) >>= _) = _
    rw [Literal.read_of_holds hvalue literal.isTrimmed_written hliteral]
    rfl

/-- The inside of an argument list as it is written, with a comma and a space between two
arguments. -/
def writtenAll (arguments : List LiteralArgument) : Text :=
  Text.joined ", " (arguments.map written)

/-- Arguments that are written one after the other are read one after the other. -/
theorem readAll_writtenAll (arguments : List LiteralArgument) :
    Argument.readAll (writtenAll arguments) = .ok (arguments.map argument) := by
  obtain ⟨items, hitems, hall⟩ := Item.split_joined_map isPiece_written isTrimmed_written arguments
  have hread : List.Forall₂ (fun item argument =>
      Reading.moved item.offset (Argument.read item.text) = .ok argument)
      items (arguments.map argument) := by
    rw [List.forall₂_map_right_iff]
    exact hall.imp fun item argument hitem => Reading.moved_eq_ok.2 (argument.read_of_holds hitem)
  rw [Argument.readAll, writtenAll, hitems]
  exact Outcome.mapM_eq_ok_iff.2 hread

theorem isGroup_writtenAll (arguments : List LiteralArgument) {rest : Text} {offset : Nat} :
    Opening.IsGroup rest [] offset '(' (writtenAll arguments) ')' := by
  have hbracket : some (CodePoint.scalar ')') ≠ some (CodePoint.scalar '"') := by decide
  refine ⟨.bracket .round offset, rfl, ?_, rfl⟩
  refine Literal.within_joined (List.cons_ne_nil _ _) Opening.isOutside_bracket hbracket ?_
  intro text htext rest offset hrest
  obtain ⟨argument, _, rfl⟩ := List.mem_map.1 htext
  exact argument.within_written (List.cons_ne_nil _ _) Opening.isOutside_bracket hrest

end LiteralArgument

/-! ## Snippets

The attribute is found first, then its arguments, then the declaration. Each of these steps is one
equation on a text that starts with what the step reads, and `read_written` puts them in a row. -/

namespace Snippet

/-- Behind the attribute's name, a snippet is an argument list, which may be missing, attributes
that are passed over, and a declaration. -/
theorem readAfter_eq_ok_iff {name text : Text} {snippet : Snippet} :
    readAfter name text = .ok snippet ↔
      ∃ arguments used skipped declaration, readArguments text = .ok (arguments, used) ∧
        Attribute.skip (text.drop used) = .ok skipped ∧
        Declaration.ofHead? ((text.drop used).drop skipped) = some declaration ∧
        snippet = ⟨⟨name, arguments⟩, declaration⟩ := by
  rw [readAfter]
  constructor
  · intro h
    obtain ⟨⟨arguments, used⟩, hread, hafter⟩ := Reading.bind_eq_ok.1 h
    obtain ⟨skipped, hskip, hdeclared⟩ := Reading.bind_eq_ok.1 hafter
    rw [← List.drop_drop] at hdeclared
    cases hfound : Declaration.ofHead? ((text.drop used).drop skipped) with
    | none =>
      rw [hfound] at hdeclared
      cases hdeclared
    | some declaration =>
      rw [hfound] at hdeclared
      cases hdeclared
      exact ⟨arguments, used, skipped, declaration, hread, Reading.moved_eq_ok.1 hskip, hfound, rfl⟩
  · rintro ⟨arguments, used, skipped, declaration, hread, hskip, hfound, rfl⟩
    refine Reading.bind_eq_ok.2 ⟨_, hread, Reading.bind_eq_ok.2 ⟨skipped, ?_, ?_⟩⟩
    · exact Reading.moved_eq_ok.2 hskip
    · rw [← List.drop_drop, hfound]
      rfl

/-- A snippet starts with the first mention of the attribute, and all that precedes the mention is
of no importance to a snippet that can be read. -/
theorem read_eq_ok_iff {name text : Text} {snippet : Snippet} :
    read name text = .ok snippet ↔
      ∃ offset, Attribute.findMention? name text = some offset ∧
        readAfter name (text.drop (offset + 1 + name.length)) = .ok snippet := by
  rw [read]
  cases hmention : Attribute.findMention? name text with
  | none => simp
  | some offset => simp [Reading.moved_eq_ok]

/-- A group in round brackets is the argument list that it holds, whatever follows it. -/
theorem readArguments_eq {blanks inner rest : Text} (hblanks : ∀ c ∈ blanks, c.isBlank)
    (h : Opening.IsGroup rest [] 0 '(' inner ')') :
    readArguments (blanks ++ CodePoint.scalar '(' :: (inner ++ CodePoint.scalar ')' :: rest)) = (do
      let arguments ← Reading.moved (blanks.length + 1) (Argument.readAll inner)
      return (arguments, blanks.length + inner.length + 2)) := by
  have hstart :
      (blanks ++ CodePoint.scalar '(' :: (inner ++ CodePoint.scalar ')' :: rest)).trimStart =
        CodePoint.scalar '(' :: (inner ++ CodePoint.scalar ')' :: rest) := by
    rw [Text.trimStart_append hblanks, Text.trimStart_cons_of_not_isBlank (by decide)]
  have hgap : (blanks ++ CodePoint.scalar '(' ::
      (inner ++ CodePoint.scalar ')' :: rest)).leadingBlanks = blanks.length := by
    rw [Text.leadingBlanks_append hblanks]
    rfl
  have hinside : ((blanks ++ CodePoint.scalar '(' :: (inner ++ CodePoint.scalar ')' :: rest)).drop
      (blanks.length + 1)).take (0 + 1 + inner.length - 1) = inner := by
    rw [← List.drop_drop, List.drop_left, List.drop_succ_cons, List.drop_zero,
      show 0 + 1 + inner.length - 1 = inner.length by omega, List.take_left]
  rw [readArguments, hstart, if_pos (by exact rfl), hgap, Text.unitEnd, h.unitEndFrom]
  show (Reading.moved _ (Argument.readAll ((List.drop _ _).take _)) >>= _) = _
  rw [hinside, show blanks.length + inner.length + 2 =
    blanks.length + (0 + 1 + inner.length) + 1 by omega]

/-- The same for a list that can be read, with no blanks before it. -/
theorem readArguments_of_isGroup {inner rest : Text} {arguments : List Argument}
    (h : Opening.IsGroup rest [] 0 '(' inner ')') (hread : Argument.readAll inner = .ok arguments) :
    readArguments (CodePoint.scalar '(' :: (inner ++ CodePoint.scalar ')' :: rest)) =
      .ok (arguments, inner.length + 2) := by
  have hgroup := readArguments_eq (List.forall_mem_nil fun c : CodePoint => c.isBlank) h
  rw [hread, List.length_nil, Nat.zero_add, Nat.zero_add] at hgroup
  exact hgroup

/-- The head of a declaration as it is written, after a space: the keyword of its kind and its
name. -/
def writtenHead (declaration : Declaration) : Text :=
  " " ++ declaration.kind.keyword ++ " " ++ declaration.name

/-- No attribute stands between the argument list and the declaration, only the space. -/
theorem skip_writtenHead (declaration : Declaration) (remainder : Text) :
    Attribute.skip (writtenHead declaration ++ remainder) = .ok 1 := by
  obtain ⟨kind, name⟩ := declaration
  have hname : Attribute.splitName? (writtenHead ⟨kind, name⟩ ++ remainder).trimStart = none := by
    cases kind <;> rfl
  have hblanks : (writtenHead ⟨kind, name⟩ ++ remainder).leadingBlanks = 1 := by
    cases kind <;> rfl
  rw [Attribute.skip]
  split
  · rw [hblanks]
  · rename_i hsome
    rw [hname] at hsome
    cases hsome

/-- **The head of a declaration is read as it was written.** The keyword is a word of its own, so
that the name is what the next word starts with. -/
theorem ofHead?_writtenHead {declaration : Declaration} {remainder : Text}
    (hname : declaration.name.isIdentifier) (hremainder : remainder.EndsWord) :
    Declaration.ofHead? ((writtenHead declaration ++ remainder).drop 1) = some declaration := by
  have hdrop : (writtenHead declaration ++ remainder).drop 1 =
      declaration.kind.keyword ++ (" " ++ declaration.name) ++ remainder := by
    simp only [writtenHead, List.append_assoc]
    rfl
  rw [hdrop]
  exact (Declaration.IsHead.named (by decide) (by decide) hname).ofHead?_eq_some hremainder

/-- An attribute is found at its own mention, since a bracket follows its name and ends it. -/
theorem findMention?_written {name : Text} (hname : name.getLast?.any CodePoint.isWord)
    (rest : Text) :
    Attribute.findMention? name (CodePoint.scalar '@' :: (name ++ CodePoint.scalar '(' :: rest)) =
      some 0 := by
  have hmention : Attribute.isMention name
      (CodePoint.scalar '@' :: (name ++ CodePoint.scalar '(' :: rest)) = true := by
    have hstarts : (CodePoint.scalar '@' :: name).isPrefixOf
        (CodePoint.scalar '@' :: (name ++ CodePoint.scalar '(' :: rest)) = true := by
      rw [List.isPrefixOf_iff_prefix]
      exact ⟨CodePoint.scalar '(' :: rest, rfl⟩
    have hdrop : (CodePoint.scalar '@' :: (name ++ CodePoint.scalar '(' :: rest)).drop
        (CodePoint.scalar '@' :: name).length = CodePoint.scalar '(' :: rest := List.drop_left
    have hlast : (CodePoint.scalar '@' :: name).getLast?.any CodePoint.isWord = true := by
      cases name with
      | nil => cases hname
      | cons c more =>
        rw [List.getLast?_cons_cons]
        exact hname
    have hnext : (CodePoint.scalar '(' :: rest).head?.any CodePoint.isWord = false := rfl
    rw [Attribute.isMention, hstarts, Bool.true_and, hdrop, Attribute.meetsAtBoundary, hlast, hnext]
    rfl
  rw [Attribute.findMention?, if_pos hmention]

/-- A snippet as it is written: an attribute with its argument list, and the head of a
declaration. -/
def written (name : Text) (arguments : List LiteralArgument) (declaration : Declaration) : Text :=
  "@" ++ name ++ "(" ++ Text.joined ", " (arguments.map LiteralArgument.written) ++ ") " ++
    declaration.kind.keyword ++ " " ++ declaration.name

/-- **A snippet is read as it was written**, whatever attribute is asked for, provided that its name
ends with a word character, as identifiers do. -/
theorem read_written {name : Text} (hname : name.getLast?.any CodePoint.isWord)
    (arguments : List LiteralArgument) {declaration : Declaration}
    (hdeclaration : declaration.name.isIdentifier) {remainder : Text}
    (hremainder : remainder.EndsWord) :
    read name (written name arguments declaration ++ remainder) =
      .ok ⟨⟨name, arguments.map LiteralArgument.argument⟩, declaration⟩ := by
  have htext : written name arguments declaration ++ remainder =
      CodePoint.scalar '@' :: (name ++ CodePoint.scalar '(' ::
        (LiteralArgument.writtenAll arguments ++ CodePoint.scalar ')' ::
          (writtenHead declaration ++ remainder))) := by
    simp only [written, writtenHead, LiteralArgument.writtenAll, List.append_assoc]
    rfl
  have hafter : (CodePoint.scalar '@' :: (name ++ CodePoint.scalar '(' ::
      (LiteralArgument.writtenAll arguments ++ CodePoint.scalar ')' ::
        (writtenHead declaration ++ remainder)))).drop (0 + 1 + name.length) =
      CodePoint.scalar '(' :: (LiteralArgument.writtenAll arguments ++ CodePoint.scalar ')' ::
        (writtenHead declaration ++ remainder)) := by
    rw [Nat.zero_add, Nat.add_comm 1, List.drop_succ_cons, List.drop_left]
  rw [htext, read, findMention?_written hname]
  show Reading.moved (0 + 1 + name.length) (readAfter name (List.drop (0 + 1 + name.length) _)) = _
  rw [hafter, Reading.moved_eq_ok, readAfter]
  -- Behind the name: the argument list, then the head, with nothing but a space in between.
  refine Outcome.bind_eq_ok_iff.2 ⟨_, readArguments_of_isGroup
    (LiteralArgument.isGroup_writtenAll arguments)
      (LiteralArgument.readAll_writtenAll arguments), ?_⟩
  have hhead : (CodePoint.scalar '(' :: (LiteralArgument.writtenAll arguments ++
      CodePoint.scalar ')' :: (writtenHead declaration ++ remainder))).drop
        ((LiteralArgument.writtenAll arguments).length + 2) =
      writtenHead declaration ++ remainder := by
    rw [List.drop_succ_cons, ← List.singleton_append, ← List.append_assoc]
    exact List.drop_left' (by simp)
  have hskip := skip_writtenHead declaration remainder
  have hread := ofHead?_writtenHead hdeclaration hremainder
  refine Outcome.bind_eq_ok_iff.2 ⟨1, ?_, ?_⟩
  · rw [hhead, hskip]
    rfl
  · rw [← hhead, List.drop_drop] at hread
    rw [hread]
    rfl

/-- Commas, brackets, quotes and line feeds in a string do not disturb what is around it. -/
theorem read_written_recipe :
    ∃ arguments,
      written "UsefulClass" arguments ⟨.structType, "Recipe"⟩ =
        "@UsefulClass([\"a, (b\", []], codingMembers: \"\\\"]\\n@\") struct Recipe" ∧
      read "UsefulClass" (written "UsefulClass" arguments ⟨.structType, "Recipe"⟩ ++ ": Codable") =
        .ok ⟨⟨"UsefulClass", [⟨none, .array [.string "a, (b" false, .array []]⟩,
          ⟨some ("codingMembers" : Text), .string "\"]\n@" false⟩]⟩, ⟨.structType, "Recipe"⟩⟩ := by
  refine ⟨[⟨none, .list [.text "a, (b", .list []], by simp⟩,
    ⟨some ("codingMembers" : Text), .text "\"]\n@", by decide⟩], by decide +kernel, ?_⟩
  exact read_written (by decide) _ (by decide) rfl

end Snippet

end MemberSynthesis
