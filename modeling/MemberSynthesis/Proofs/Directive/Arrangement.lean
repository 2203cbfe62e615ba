import Mathlib.Data.List.Perm.Basic
import MemberSynthesis.Generation
import MemberSynthesis.Proofs.Directive.Acceptance
import MemberSynthesis.Proofs.Source.Listing
import MemberSynthesis.Proofs.Source.Writing

/-!
# The arrangement of arguments

The arguments of a directive are told by their labels, and each of them is read from its own text.
So it makes no difference in which order they stand, what blanks are put around them and whether a
comma follows the last one: **a source text gives the same members however its arguments are laid
out** (`Source.members_arranged`).

Three facts make this up.

* Blanks around an argument do not change what it is (`Argument.read_padded`). They do change where
  it stands, and so the offset of its faults; the theorem is about texts without fault.
* An argument list is read argument by argument, however it is laid out
  (`Argument.readAll_listing`). Layouts are values of `Listing`: entries with their blanks, none of
  them blank and each without a comma of its own outside of brackets and strings.
* What a directive states does not depend on the order of its arguments (`Content.StatedBy.perm`).

The arrangement of the *members* of an array is another matter, as the order of the descriptors is
that of the fields. Nor does the theorem speak of what stands before the directive or behind its
arguments, which is the same in both texts.
-/

set_option autoImplicit false

namespace MemberSynthesis

/-! ## Arguments between blanks

The label is looked for behind the blanks at the front; the value is all that follows the colon and
is trimmed when it is read. So neither side sees the blanks of the other. -/

namespace Argument

/-- Blanks around an argument leave its label alone; those behind it fall to its value. That
something in the argument is no blank is what keeps the two sides apart. -/
theorem splitLabel?_padded {before text after : Text} (hbefore : ∀ c ∈ before, c.isBlank)
    (hafter : ∀ c ∈ after, c.isBlank) (htext : ∃ c ∈ text, c.isBlank = false) :
    splitLabel? (before ++ (text ++ after)) =
      (splitLabel? text).map fun labelled => (labelled.1, labelled.2 ++ after) := by
  have hfilled : text.trimStart ≠ [] := by
    obtain ⟨c, hc, hblank⟩ := htext
    intro hnil
    rw [Text.trimStart_eq_nil_iff.1 hnil c hc] at hblank
    cases hblank
  have hword : after.EndsWord := Text.endsWord_of_blank (Text.head?_all_isBlank hafter)
  -- A second colon can not come from the blanks behind.
  have hcolon : after.head? ≠ some (CodePoint.scalar ':') := fun hc =>
    absurd (hafter _ (List.mem_of_head? hc)) (by decide)
  rw [splitLabel?, splitLabel?, Text.trimStart_append hbefore,
    Text.trimStart_append_of_ne_nil hfilled]
  cases hname : Identifier.split? text.trimStart with
  | none => rw [Identifier.split?_append_eq_none hname hfilled]; rfl
  | some found =>
    obtain ⟨label, rest⟩ := found
    rw [Identifier.split?_append hname (.inr hword)]
    cases hrest : rest.trimStart with
    | nil =>
      have hall := List.forall_mem_append.2 ⟨Text.trimStart_eq_nil_iff.1 hrest, hafter⟩
      simp only [Text.trimStart_eq_nil_iff.2 hall, hrest, Option.map_none]
    | cons c value =>
      have hvalue : (value ++ after).head? ≠ some (CodePoint.scalar ':') ↔
          value.head? ≠ some (CodePoint.scalar ':') := by
        cases value with
        | nil => simpa using hcolon
        | cons d more => rfl
      have happend := Text.trimStart_append_of_ne_nil (hrest ▸ List.cons_ne_nil c value) after
      simp only [happend, hrest, List.cons_append, hvalue]
      split <;> rfl

/-- **Blanks around an argument do not change what it is.** If it has a label, the blanks in front
are skipped with it; if not, the whole is an expression, which is trimmed. -/
theorem read_padded {before text after : Text} {argument : Argument}
    (hbefore : ∀ c ∈ before, c.isBlank) (hafter : ∀ c ∈ after, c.isBlank)
    (htext : ∃ c ∈ text, c.isBlank = false) (h : read text = .ok argument) :
    read (before ++ (text ++ after)) = .ok argument := by
  have hlabel := splitLabel?_padded hbefore hafter htext
  unfold read at h
  split at h
  · rename_i hnone
    rw [hnone, Option.map_none] at hlabel
    obtain ⟨expression, hread, hargument⟩ := Reading.bind_eq_ok.1 h
    rw [read, hlabel]
    dsimp only
    rw [Expression.read_padded hbefore hafter htext, hread]
    exact hargument
  · rename_i label value hsome
    rw [hsome, Option.map_some] at hlabel
    obtain ⟨expression, hread, hargument⟩ := Reading.bind_eq_ok.1 h
    rw [Reading.moved_eq_ok] at hread
    have hvalue := Expression.exists_of_read_eq_ok hread
    have hpadded := Expression.read_padded (List.forall_mem_nil fun c : CodePoint => c.isBlank)
      hafter hvalue
    rw [List.nil_append, hread] at hpadded
    rw [read, hlabel]
    dsimp only
    rw [hpadded]
    exact hargument

/-! ## Argument lists

A list is split at its commas first, and each piece is read by itself. Two lists with the same
pieces therefore have the same arguments, up to the blanks around each. -/

/-- An argument list is read argument by argument; a blank piece at its end is none. `kept` are the
texts without such a piece. -/
theorem readAll_joined_eq_ok_iff {texts kept : List Text} {arguments : List Argument}
    (htexts : ∀ text ∈ texts, text.IsUndivided)
    (hkept : Item.withoutBlankLast (Item.placed 0 texts) = Item.placed 0 kept) :
    readAll (Text.joined "," texts) = .ok arguments ↔
      List.Forall₂ (fun text argument => read text = .ok argument) kept arguments := by
  rw [readAll, Item.split_listed htexts, hkept]
  exact Item.readEach_placed_eq_ok_iff

/-- **However an argument list is laid out, its arguments are those of its entries**, each read from
its own text without the blanks. -/
theorem readAll_listing {listing : Listing} {arguments : List Argument}
    (h : List.Forall₂ (fun text argument => read text = .ok argument)
      (listing.entries.map Entry.text) arguments) :
    readAll listing.written = .ok arguments := by
  refine (readAll_joined_eq_ok_iff (fun _ => listing.isUndivided_of_mem_pieces)
    listing.withoutBlankLast_pieces).2 (List.forall₂_map_left_iff.2 ?_)
  exact (List.forall₂_map_left_iff.1 h).imp fun entry argument hread =>
    read_padded entry.blank_before entry.blank_after entry.filled hread

end Argument

/-! ## Attributes -/

namespace Snippet

/-- An attribute at the start of a source text is read from its argument list and from what follows
that, each on its own. That the inside is balanced is what makes the first closing bracket the right
one. -/
theorem read_attribute_eq_ok_iff {name inside head : Text} {snippet : Snippet}
    (hname : name.getLast?.any CodePoint.isWord) (hinside : inside.IsBalanced) :
    read name ("@" ++ name ++ "(" ++ inside ++ ")" ++ head) = .ok snippet ↔
      ∃ arguments skipped declaration, Argument.readAll inside = .ok arguments ∧
        Attribute.skip head = .ok skipped ∧
        Declaration.ofHead? (head.drop skipped) = some declaration ∧
        snippet = ⟨⟨name, arguments⟩, declaration⟩ := by
  have htext : "@" ++ name ++ "(" ++ inside ++ ")" ++ head = CodePoint.scalar '@' ::
      (name ++ CodePoint.scalar '(' :: (inside ++ CodePoint.scalar ')' :: head)) := by
    simp only [List.append_assoc]
    rfl
  have hcalled : (CodePoint.scalar '@' :: (name ++ CodePoint.scalar '(' ::
      (inside ++ CodePoint.scalar ')' :: head))).drop (0 + 1 + name.length) =
      CodePoint.scalar '(' :: (inside ++ CodePoint.scalar ')' :: head) := by
    rw [Nat.zero_add, Nat.add_comm 1, List.drop_succ_cons, List.drop_left]
  have hhead : (CodePoint.scalar '(' :: (inside ++ CodePoint.scalar ')' :: head)).drop
      (inside.length + 2) = head := by
    rw [List.drop_succ_cons, ← List.drop_drop, List.drop_left]
    rfl
  -- The list ends where its brackets do, whether or not it can be read.
  have hgroup := Grammar.isGroup_of_isBalanced .round hinside head 0
  have harguments := readArguments_eq (List.forall_mem_nil fun c : CodePoint => c.isBlank) hgroup
  rw [List.nil_append, List.length_nil, Nat.zero_add, Nat.zero_add] at harguments
  rw [htext, read_eq_ok_iff, findMention?_written hname]
  constructor
  · rintro ⟨_, hoffset, hafter⟩
    cases hoffset
    rw [hcalled, readAfter_eq_ok_iff, harguments] at hafter
    obtain ⟨arguments, _, skipped, declaration, hfirst, hskip, hfound, rfl⟩ := hafter
    obtain ⟨_, hread, hused⟩ := Reading.bind_eq_ok.1 hfirst
    cases hused
    rw [hhead] at hskip hfound
    exact ⟨arguments, skipped, declaration, Reading.moved_eq_ok.1 hread, hskip, hfound, rfl⟩
  · rintro ⟨arguments, skipped, declaration, hread, hskip, hfound, rfl⟩
    refine ⟨0, rfl, ?_⟩
    rw [hcalled, readAfter_eq_ok_iff, harguments, hread]
    exact ⟨arguments, inside.length + 2, skipped, declaration, rfl, hhead.symm ▸ hskip,
      hhead.symm ▸ hfound, rfl⟩

end Snippet

/-! ## Directives -/

namespace Directive

variable {directive : Attribute} {declaration : Declaration} {arguments : List Argument}

/-- What a directive states does not depend on the order of its arguments: each of its conditions
speaks of all arguments with a label, or of the labels up to their order. -/
theorem Content.StatedBy.perm {content : Content} (h : content.StatedBy directive declaration)
    (hperm : arguments.Perm directive.arguments) :
    content.StatedBy ⟨directive.name, arguments⟩ declaration where
  attached := h.attached
  labels := (hperm.map Argument.label).trans h.labels
  comparable argument hargument := h.comparable argument (hperm.subset hargument)
  coding argument hargument := h.coding argument (hperm.subset hargument)
  statements argument hargument := h.statements argument (hperm.subset hargument)
  described := h.described
  distinct := h.distinct
  apart := h.apart

theorem interpret_eq_ok_of_perm {schema : Schema} (h : interpret directive declaration = .ok schema)
    (hperm : arguments.Perm directive.arguments) :
    interpret ⟨directive.name, arguments⟩ declaration = .ok schema := by
  obtain ⟨content, hstated, rfl⟩ := interpret_eq_ok_iff.1 h
  exact interpret_eq_ok_iff.2 ⟨content, hstated.perm hperm, rfl⟩

end Directive

/-! ## Source texts -/

namespace Source

theorem schema_eq_ok_iff {name text : Text} {found : Schema} :
    Source.schema name text = .ok found ↔
      ∃ snippet, Snippet.read name text = .ok snippet ∧
        Directive.interpret snippet.directive snippet.declaration = .ok found := by
  rw [Source.schema]
  cases hread : Snippet.read name text with
  | error fault => simp
  | ok snippet =>
    cases hinterpret : Directive.interpret snippet.directive snippet.declaration <;>
      simp [hinterpret]

/-- The members of a source text that starts with a directive are those of the schema that the
directive has by its arguments and the declaration after it. The five steps are those from the text
to the members. -/
theorem members_eq_ok_iff {inside head : Text} {members : List Member}
    (hinside : inside.IsBalanced) :
    Source.members ("@" ++ directiveName ++ "(" ++ inside ++ ")" ++ head) = .ok members ↔
      ∃ arguments skipped declaration schema, Argument.readAll inside = .ok arguments ∧
        Attribute.skip head = .ok skipped ∧
        Declaration.ofHead? (head.drop skipped) = some declaration ∧
        Directive.interpret ⟨directiveName, arguments⟩ declaration = .ok schema ∧
        members = schema.members := by
  have hname : directiveName.getLast?.any CodePoint.isWord := by decide
  rw [Source.members, Outcome.bind_eq_ok_iff]
  constructor
  · rintro ⟨schema, hschema, hmembers⟩
    obtain ⟨snippet, hsnippet, hinterpret⟩ := schema_eq_ok_iff.1 hschema
    obtain ⟨arguments, skipped, declaration, harguments, hskip, hdeclared, rfl⟩ :=
      (Snippet.read_attribute_eq_ok_iff hname hinside).1 hsnippet
    exact ⟨arguments, skipped, declaration, schema, harguments, hskip, hdeclared, hinterpret,
      (Except.ok.inj hmembers).symm⟩
  · rintro ⟨arguments, skipped, declaration, schema, harguments, hskip, hdeclared, hinterpret, rfl⟩
    have hsnippet := (Snippet.read_attribute_eq_ok_iff hname hinside).2
      ⟨arguments, skipped, declaration, harguments, hskip, hdeclared, rfl⟩
    exact ⟨schema, schema_eq_ok_iff.2 ⟨_, hsnippet, hinterpret⟩, rfl⟩

/-- **The arrangement of the arguments does not matter.** If a source text that starts with a
directive has members, it has the same members with its arguments in any other order, with blanks
around them and with or without a comma behind the last one. -/
theorem members_arranged {first second third head : Text} {members : List Member}
    (h : Source.members ("@" ++ directiveName ++ "(" ++ (first ++ "," ++ second ++ "," ++ third) ++
      ")" ++ head) = .ok members)
    (listing : Listing) (hlisting : (listing.entries.map Entry.text).Perm [first, second, third]) :
    Source.members ("@" ++ directiveName ++ "(" ++ listing.written ++ ")" ++ head) =
      .ok members := by
  have hentry : ∀ text ∈ [first, second, third], ∃ entry ∈ listing.entries, entry.text = text :=
    fun text htext => List.mem_map.1 (hlisting.mem_iff.2 htext)
  have hundivided : ∀ text ∈ [first, second, third], text.IsUndivided := by
    intro text htext
    obtain ⟨entry, _, rfl⟩ := hentry text htext
    exact entry.undivided
  have hkept : Item.withoutBlankLast (Item.placed 0 [first, second, third]) =
      Item.placed 0 [first, second, third] := by
    refine Item.withoutBlankLast_placed fun text htext => ?_
    obtain ⟨entry, _, rfl⟩ := hentry text htext
    exact entry.text_not_all_isBlank
  have htexts : first ++ "," ++ second ++ "," ++ third =
      Text.joined "," [first, second, third] := by
    rw [Text.joined_cons _ _ (List.cons_ne_nil _ _), Text.joined_cons _ _ (List.cons_ne_nil _ _),
      Text.joined_singleton]
    simp only [List.append_assoc]
  rw [htexts] at h
  obtain ⟨arguments, skipped, declaration, schema, harguments, hskip, hdeclared, hinterpret, rfl⟩ :=
    (members_eq_ok_iff (Item.isBalanced_listed hundivided)).1 h
  -- The arguments that are read from the listing are those of the three texts in its order.
  obtain ⟨arranged, harranged, hperm⟩ :=
    List.perm_comp_forall₂ hlisting ((Argument.readAll_joined_eq_ok_iff hundivided hkept).1
      harguments)
  exact (members_eq_ok_iff listing.isBalanced_written).2
    ⟨arranged, skipped, declaration, schema, Argument.readAll_listing harranged, hskip, hdeclared,
      Directive.interpret_eq_ok_of_perm hinterpret hperm, rfl⟩

/-- The arguments in the reverse order, over two lines, and a comma behind the last one. -/
theorem members_arranged_recipe :
    ∃ members : List Member,
      Source.members
        ("@UsefulClass(comparableMembers: [\"a\", \"b\"],codingMembers: [\"x: Int\"]," ++
        "uselessInitializations: \"run()\") class Recipe") = .ok members ∧
      Source.members
        ("@UsefulClass(\nuselessInitializations: \"run()\" , codingMembers: [\"x: Int\"]," ++
        "comparableMembers: [\"a\", \"b\"]\n, ) class Recipe") = .ok members := by
  let comparable : Entry := ⟨"", "comparableMembers: [\"a\", \"b\"]", "\n", by decide, by decide,
    by decide +kernel, by decide⟩
  let coding : Entry := ⟨" ", "codingMembers: [\"x: Int\"]", "", by decide, by decide,
    by decide +kernel, by decide⟩
  let statements : Entry := ⟨"\n", "uselessInitializations: \"run()\"", " ", by decide, by decide,
    by decide +kernel, by decide⟩
  let listing : Listing := ⟨[statements, coding, comparable], some " ", by decide⟩
  have hgiven :
    ("@UsefulClass(comparableMembers: [\"a\", \"b\"],codingMembers: [\"x: Int\"]," : Text) ++
      "uselessInitializations: \"run()\") class Recipe" =
      "@" ++ directiveName ++ "(" ++ (comparable.text ++ "," ++ coding.text ++ "," ++
        statements.text) ++
        ")" ++ " class Recipe" := by decide +kernel
  have harranged :
    ("@UsefulClass(\nuselessInitializations: \"run()\" , codingMembers: [\"x: Int\"]," : Text) ++
      "comparableMembers: [\"a\", \"b\"]\n, ) class Recipe" =
      "@" ++ directiveName ++ "(" ++ listing.written ++ ")" ++ " class Recipe" := by decide +kernel
  rw [hgiven, harranged]
  have hok : (Source.members ("@" ++ directiveName ++ "(" ++ (comparable.text ++ "," ++
      coding.text ++ "," ++ statements.text) ++ ")" ++ " class Recipe")).isOk := by decide +kernel
  cases h : Source.members ("@" ++ directiveName ++ "(" ++ (comparable.text ++ "," ++ coding.text ++
      "," ++ statements.text) ++ ")" ++ " class Recipe") with
  | error failure =>
    rw [h] at hok
    cases hok
  | ok members => exact ⟨members, rfl, members_arranged h listing (List.reverse_perm [_, _, _])⟩

end Source

end MemberSynthesis
