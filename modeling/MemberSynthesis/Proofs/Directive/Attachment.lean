import MemberSynthesis.Proofs.Directive.Arrangement
import MemberSynthesis.Proofs.Source.Layout

/-!
# What a directive is attached to

Members come out of a text just when its directive states a content about the declaration that is
read, and that must be a class, a struct or an actor (`Source.exists_members_written_iff`). The name
that is read has no say, and so it is the kind alone that tells a type from something else.

The kind is what the first word that is no modifier says. Now a member of a type, a function or a
binding, may have `class` among its modifiers, and this word is no modifier for the reader but the
keyword of a class. Then the word behind it is taken for a name, be it a modifier or a keyword, and
the rest of the member has no say (`WrittenMember.ofHead?_writtenFrom`). So **a directive before a
member is refused just when `class` is not among the modifiers of the member**
(`Source.members_attached`).

In the other case nothing goes wrong in the reader: a class with the name of a modifier or of a
keyword is a declaration as good as any, the directive says something about it, and the members of
that class come out. They are useless where they stand, but no fault and no mistake is reported.
`exists_members_class_func` is the shortest such text.

## How the statement is put

A member is a structure of its parts as they are written (`WrittenMember`), with any modifiers in
any order and any blanks between them. It is put in the place of the declaration in a layout of a
source text, and so stands behind whatever may precede a declaration. What is read of it is a
recursion over its modifiers (`WrittenMember.declarationFrom?`), and the proof is one equation
between that and the reader.
-/

set_option autoImplicit false

namespace MemberSynthesis

/-! ## The members of a type

Modifiers, a keyword and what is declared, as they are written. The modifiers are those that the
reader knows, and `class` with them. -/

/-- A modifier of a member of a type as it is written, blanks behind it: one that may precede the
keyword of a declaration, or `class`. -/
structure MemberModifier where
  word : Text
  behind : Text
  known : word ∈ Declaration.modifiers ∨ word = DeclarationKind.classType.keyword
  separated : behind ≠ []
  blank : ∀ c ∈ behind, c.isBlank

namespace MemberModifier

/-- Modifiers one after the other, each with the blanks behind it. -/
def writtenAll (modifiers : List MemberModifier) : Text :=
  modifiers.flatMap fun modifier => modifier.word ++ modifier.behind

/-- The modifier of a member of the type itself. -/
def isClass (modifier : MemberModifier) : Bool := modifier.word = DeclarationKind.classType.keyword

variable (modifier : MemberModifier)

theorem writtenAll_cons_append (more : List MemberModifier) (text : Text) :
    writtenAll (modifier :: more) ++ text =
      modifier.word ++ (modifier.behind ++ (writtenAll more ++ text)) := by
  simp [writtenAll]

theorem isIdentifier_word : modifier.word.isIdentifier := by
  rcases modifier.known with hknown | hclass
  · exact Declaration.isIdentifier_of_mem_modifiers hknown
  · rw [hclass]
    exact Declaration.isIdentifier_keyword .classType

end MemberModifier

/-- A member of a type as it is written: modifiers, the keyword of a function or of a binding, and
what is declared, which goes on to the end of the text. What is declared may be anything, with or
without a name at its start. -/
structure WrittenMember where
  modifiers : List MemberModifier
  kind : DeclarationKind
  gap : Text
  declared : Text
  introduced : kind = .function ∨ kind = .varBinding ∨ kind = .letBinding
  separated : gap ≠ []
  blank : ∀ c ∈ gap, c.isBlank
  trimmed : declared.trimStart = declared

namespace WrittenMember

variable (member : WrittenMember)

/-- The member from some of its modifiers on. The induction over the modifiers needs the text that
is left, which is a member again. -/
def writtenFrom (modifiers : List MemberModifier) : Text :=
  MemberModifier.writtenAll modifiers ++ (member.kind.keyword ++ (member.gap ++ member.declared))

/-- The whole member. -/
def written : Text := member.writtenFrom member.modifiers

/-- Whether `class` is among the modifiers. -/
def isClassMember : Bool := member.modifiers.any MemberModifier.isClass

/-- The first word of a member from some of its modifiers on: the next modifier, or the keyword when
none is left. -/
def wordFrom : List MemberModifier → Text
  | [] => member.kind.keyword
  | modifier :: _ => modifier.word

/-- The declaration for which a member is taken. If none of the modifiers is `class`, it is what the
member is, as long as that has a name; else it is a class, called like the word behind the first
`class`. -/
def declarationFrom? : List MemberModifier → Option Declaration
  | [] => (Identifier.split? member.declared).map fun found => ⟨member.kind, found.1⟩
  | modifier :: more =>
    if modifier.isClass then some ⟨.classType, member.wordFrom more⟩ else declarationFrom? more

/-- The words of a member, of which the first one is followed by blanks. So the reader, which goes
word by word, takes one modifier after the other. -/
theorem exists_words_writtenFrom (modifiers : List MemberModifier) :
    ∃ more, (member.writtenFrom modifiers).words = member.wordFrom modifiers :: more := by
  cases modifiers with
  | nil =>
    exact ⟨_, Declaration.words_of_isIdentifier (Declaration.isIdentifier_keyword member.kind)
      member.separated member.blank member.declared⟩
  | cons modifier more =>
    rw [writtenFrom, MemberModifier.writtenAll_cons_append]
    exact ⟨_, Declaration.words_of_isIdentifier modifier.isIdentifier_word modifier.separated
      modifier.blank _⟩

theorem isIdentifier_wordFrom (modifiers : List MemberModifier) :
    (member.wordFrom modifiers).isIdentifier := by
  cases modifiers with
  | nil => exact Declaration.isIdentifier_keyword member.kind
  | cons modifier _ => exact modifier.isIdentifier_word

/-- A member starts with a word character. It is therefore found where the blanks behind the
attributes end. -/
theorem exists_cons_writtenFrom (modifiers : List MemberModifier) :
    ∃ c more, c.isWord ∧ member.writtenFrom modifiers = c :: more := by
  cases modifiers with
  | nil =>
    obtain ⟨c, more, hword, hc⟩ :=
      Declaration.exists_cons_of_isIdentifier (Declaration.isIdentifier_keyword member.kind)
    exact ⟨c, more ++ (member.gap ++ member.declared), hc, by
      rw [writtenFrom, MemberModifier.writtenAll, List.flatMap_nil, List.nil_append, hword,
        List.cons_append]⟩
  | cons modifier more =>
    obtain ⟨c, rest, hword, hc⟩ := Declaration.exists_cons_of_isIdentifier
      modifier.isIdentifier_word
    rw [writtenFrom, MemberModifier.writtenAll_cons_append, hword]
    exact ⟨c, _, hc, List.cons_append⟩

/-- **A member is taken for what its first `class` makes of it**, or for itself if there is none. By
induction over the modifiers: each is skipped, unless it is `class`, where the reader stops. -/
theorem ofHead?_writtenFrom (modifiers : List MemberModifier) :
    Declaration.ofHead? (member.writtenFrom modifiers) = member.declarationFrom? modifiers := by
  induction modifiers with
  | nil =>
    rw [writtenFrom, MemberModifier.writtenAll, List.flatMap_nil, List.nil_append,
      Declaration.ofHead?_keyword member.kind member.separated member.blank,
      Identifier.bind_head?_words member.trimmed]
    rfl
  | cons modifier more ih =>
    rw [declarationFrom?, writtenFrom, MemberModifier.writtenAll_cons_append, ← writtenFrom]
    split
    · -- The word behind `class` is all of the next word, and so it is the name.
      rename_i hclass
      obtain ⟨others, hothers⟩ := member.exists_words_writtenFrom more
      have hname : Identifier.split? (member.wordFrom more) = some (member.wordFrom more, []) :=
        Identifier.split?_eq_some_iff.2
          ⟨member.isIdentifier_wordFrom more, Text.endsWord_nil, (List.append_nil _).symm⟩
      rw [of_decide_eq_true hclass,
        Declaration.ofHead?_keyword .classType modifier.separated modifier.blank, hothers,
        List.head?_cons, Option.bind_some, hname]
      rfl
    · rename_i hclass
      have hknown := modifier.known.resolve_right fun hword => hclass (decide_eq_true hword)
      rw [Declaration.ofHead?_modified hknown modifier.separated modifier.blank, ih]

theorem declarationFrom?_of_not_any {modifiers : List MemberModifier}
    (h : modifiers.any MemberModifier.isClass = false) :
    member.declarationFrom? modifiers =
      (Identifier.split? member.declared).map fun found => ⟨member.kind, found.1⟩ := by
  induction modifiers with
  | nil => rfl
  | cons modifier more ih =>
    rw [List.any_cons, Bool.or_eq_false_iff] at h
    rw [declarationFrom?, h.1, ih h.2]
    rfl

/-- Behind `class` stands a modifier or a keyword, and no name. That is what tells such a class from
one that the author has declared. -/
theorem exists_declarationFrom?_of_any {modifiers : List MemberModifier}
    (h : modifiers.any MemberModifier.isClass) :
    ∃ name ∈ Declaration.modifiers ++ Vocabulary.words DeclarationKind,
      member.declarationFrom? modifiers = some ⟨.classType, name⟩ := by
  induction modifiers with
  | nil => cases h
  | cons modifier more ih =>
    rw [declarationFrom?]
    split
    · refine ⟨member.wordFrom more, ?_, rfl⟩
      cases more with
      | nil => exact List.mem_append_right _ (List.mem_map_of_mem (Vocabulary.mem_all member.kind))
      | cons next _ =>
        rcases next.known with hknown | hclass
        · exact List.mem_append_left _ hknown
        · rw [wordFrom, hclass]
          exact List.mem_append_right _ (List.mem_map_of_mem
            (Vocabulary.mem_all DeclarationKind.classType))
    · rename_i hclass
      rw [List.any_cons, Bool.eq_false_iff.2 hclass, Bool.false_or] at h
      exact ih h

end WrittenMember

/-! ## Source texts

The members that come out of a source text are those of the schema, and there is a schema just when
a content is stated. What is said of declarations above becomes a statement on texts by putting the
member in a layout. -/

namespace Source

open Directive (Content)

variable {text : Text}

/-- Members come out of a text just when a snippet is read from it whose directive states a content.
Nothing can go wrong behind that. -/
theorem exists_members_iff : (∃ members, Source.members text = .ok members) ↔
    ∃ snippet content, Snippet.read directiveName text = .ok snippet ∧
      Content.StatedBy content snippet.directive snippet.declaration := by
  simp only [Source.members, Outcome.bind_eq_ok_iff, schema_eq_ok_iff,
    Directive.interpret_eq_ok_iff]
  constructor
  · rintro ⟨_, _, ⟨snippet, hread, content, hstated, _⟩, _⟩
    exact ⟨snippet, content, hread, hstated⟩
  · rintro ⟨snippet, content, hread, hstated⟩
    exact ⟨_, _, ⟨snippet, hread, content, hstated, rfl⟩, rfl⟩

theorem exists_members_iff_of_read {snippet : Snippet}
    (hread : Snippet.read directiveName text = .ok snippet) :
    (∃ members, Source.members text = .ok members) ↔
      ∃ content, Content.StatedBy content snippet.directive snippet.declaration := by
  rw [exists_members_iff]
  constructor
  · rintro ⟨found, content, hfound, hstated⟩
    rw [hread] at hfound
    cases hfound
    exact ⟨content, hstated⟩
  · rintro ⟨content, hstated⟩
    exact ⟨snippet, content, hread, hstated⟩

theorem isIdentifier_directiveName : directiveName.isIdentifier := by decide

/-- **Members come out of a text with a layout just when its directive states a content** about the
declaration. The rest of the layout, and the name that is declared, have no say. -/
theorem exists_members_written_iff (layout : Snippet.Layout directiveName) :
    (∃ members, Source.members layout.written = .ok members) ↔
      ∃ arguments content, ArgumentList.readOption layout.list = .ok arguments ∧
        Content.StatedBy content ⟨directiveName, arguments⟩ layout.declaration := by
  simp only [exists_members_iff, layout.read_written_eq_ok_iff isIdentifier_directiveName]
  constructor
  · rintro ⟨_, content, ⟨arguments, hread, rfl⟩, hstated⟩
    exact ⟨arguments, content, hread, hstated⟩
  · rintro ⟨arguments, content, hread, hstated⟩
    exact ⟨_, content, ⟨arguments, hread, rfl⟩, hstated⟩

/-- **Before a declaration that is read as no type, the directive is refused**, and the refusal
names both. This check is the first one, so that no other mistake can hide it. -/
theorem members_of_not_attachable {snippet : Snippet}
    (hread : Snippet.read directiveName text = .ok snippet)
    (hkind : snippet.declaration.kind ∉ Mistake.attachableKinds) :
    Source.members text =
      .error (.rejected
        (.mistake (.wrongAttachment snippet.directive.name snippet.declaration))) := by
  have hinterpret : Directive.interpret snippet.directive snippet.declaration =
      .error (.mistake (.wrongAttachment snippet.directive.name snippet.declaration)) := by
    rw [Directive.interpret_eq, if_pos hkind]
  rw [Source.members, Source.schema, hread]
  dsimp only
  rw [hinterpret]
  rfl

section Members

variable {layout : Snippet.Layout directiveName} {member : WrittenMember}
    {arguments : List Argument}

/-- What is read where a member stands in place of the declaration: the directive as before, and the
declaration for which the member is taken, if it is taken for one at all. -/
theorem read_member (hread : ArgumentList.readOption layout.list = .ok arguments) :
    Snippet.read directiveName (layout.withHead member.written) =
      match member.declarationFrom? member.modifiers with
      | none => .error ⟨.noDeclaration, layout.headOffset⟩
      | some declaration => .ok ⟨⟨directiveName, arguments⟩, declaration⟩ := by
  have hword := member.exists_cons_writtenFrom member.modifiers
  rw [WrittenMember.written, layout.read_withHead isIdentifier_directiveName hword, hread,
    member.ofHead?_writtenFrom]
  cases member.declarationFrom? member.modifiers <;> rfl

/-- A member that is named and none of the type itself is refused as what it is: a function or a
binding, with its name. -/
theorem members_of_split?_eq_some {name rest : Text}
    (hread : ArgumentList.readOption layout.list = .ok arguments)
    (hclass : member.isClassMember = false)
    (hname : Identifier.split? member.declared = some (name, rest)) :
    Source.members (layout.withHead member.written) =
      .error (.rejected (.mistake (.wrongAttachment directiveName ⟨member.kind, name⟩))) := by
  have hsnippet := @read_member layout member arguments hread
  rw [member.declarationFrom?_of_not_any hclass, hname] at hsnippet
  refine members_of_not_attachable hsnippet ?_
  rcases member.introduced with hkind | hkind | hkind
  all_goals
    show member.kind ∉ Mistake.attachableKinds
    rw [hkind]
    decide

/-- Where no name follows the keyword, no declaration is read. This is a fault of reading, placed
where the declaration was looked for. -/
theorem members_of_split?_eq_none (hread : ArgumentList.readOption layout.list = .ok arguments)
    (hclass : member.isClassMember = false) (hname : Identifier.split? member.declared = none) :
    Source.members (layout.withHead member.written) =
      .error (.unreadable ⟨.noDeclaration, layout.headOffset⟩) := by
  have hsnippet := @read_member layout member arguments hread
  rw [member.declarationFrom?_of_not_any hclass, hname] at hsnippet
  rw [Source.members, Source.schema, hsnippet]
  rfl

/-- A member of the type itself is read as a class, whatever comes behind its `class`. -/
theorem exists_read_of_isClassMember (hread : ArgumentList.readOption layout.list = .ok arguments)
    (hclass : member.isClassMember) :
    ∃ name ∈ Declaration.modifiers ++ Vocabulary.words DeclarationKind,
      Snippet.read directiveName (layout.withHead member.written) =
        .ok ⟨⟨directiveName, arguments⟩, ⟨.classType, name⟩⟩ := by
  obtain ⟨name, hname, hdeclaration⟩ := member.exists_declarationFrom?_of_any hclass
  refine ⟨name, hname, ?_⟩
  rw [read_member hread, hdeclaration]

end Members

/-- **What a directive is attached to.** A text from which members come out has a layout whose
declaration is read as a class, a struct or an actor, and from a text with a layout members come out
just when the directive states a content about the declaration, whatever the name that is read.
Before a member of a type, the directive is refused just when `class` is not among the modifiers of
the member: as attached to the member, if that has a name, and else because no declaration is read.
With `class` among them, a class is read whose name is a modifier or a keyword, and members come out
if the directive states a content. -/
theorem members_attached (text : Text) :
    (∀ members, Source.members text = .ok members →
      ∃ (layout : Snippet.Layout directiveName) (directive : Attribute), layout.written = text ∧
        Snippet.read directiveName text = .ok ⟨directive, layout.declaration⟩ ∧
        (layout.declaration.kind = .classType ∨ layout.declaration.kind = .structType ∨
          layout.declaration.kind = .actorType)) ∧
    (∀ layout : Snippet.Layout directiveName, layout.written = text →
      ((∃ members, Source.members text = .ok members) ↔
        ∃ arguments content, ArgumentList.readOption layout.list = .ok arguments ∧
          Content.StatedBy content ⟨directiveName, arguments⟩ layout.declaration)) ∧
    ∀ (layout : Snippet.Layout directiveName) (member : WrittenMember) (arguments : List Argument),
      layout.withHead member.written = text → ArgumentList.readOption layout.list = .ok arguments →
      (member.isClassMember = false →
        (∀ name rest, Identifier.split? member.declared = some (name, rest) →
          Source.members text =
            .error (.rejected (.mistake (.wrongAttachment directiveName ⟨member.kind, name⟩)))) ∧
        (Identifier.split? member.declared = none →
          Source.members text = .error (.unreadable ⟨.noDeclaration, layout.headOffset⟩))) ∧
      (member.isClassMember →
        ∃ name ∈ Declaration.modifiers ++ Vocabulary.words DeclarationKind,
          Snippet.read directiveName text = .ok ⟨⟨directiveName, arguments⟩, ⟨.classType, name⟩⟩ ∧
          ((∃ members, Source.members text = .ok members) ↔
            ∃ content, Content.StatedBy content ⟨directiveName, arguments⟩ ⟨.classType,
              name⟩)) := by
  refine ⟨fun members hmembers => ?_, ?_, ?_⟩
  · obtain ⟨snippet, content, hread, hstated⟩ := exists_members_iff.1 ⟨members, hmembers⟩
    obtain ⟨layout, rfl⟩ := Snippet.Layout.exists_written_eq isIdentifier_directiveName hread
    obtain ⟨arguments, _, rfl⟩ := (layout.read_written_eq_ok_iff isIdentifier_directiveName).1 hread
    exact ⟨layout, _, rfl, hread, hstated.attached⟩
  · rintro layout rfl
    exact exists_members_written_iff layout
  · rintro layout member arguments rfl hread
    refine ⟨fun hclass => ⟨fun name rest => members_of_split?_eq_some hread hclass,
      members_of_split?_eq_none hread hclass⟩, fun hclass => ?_⟩
    obtain ⟨name, hname, hsnippet⟩ := exists_read_of_isClassMember hread hclass
    exact ⟨name, hname, hsnippet, exists_members_iff_of_read hsnippet⟩

/-- A directive that describes no field states a content about any class, so that members come out
of every text that is read as a class. -/
theorem exists_statedBy_fieldless (name : Text) :
    ∃ content, Content.StatedBy content (Content.fieldless [] []).directive ⟨.classType, name⟩ := by
  obtain ⟨content, hstated, _⟩ := Directive.interpret_eq_ok_iff.1
    (Directive.interpret_fieldless [] [] ⟨.classType, name⟩ (by simp [Mistake.attachableKinds]))
  exact ⟨content, hstated⟩

/-- A function that is `static`, and a binding that is `class`: of two members of the type itself,
one is refused and the other is not. -/
theorem members_attached_static :
    Source.members
      ("@UsefulClass(comparableMembers: [],codingMembers: [],uselessInitializations: \"\")" ++
        " @objc public static func make() -> Int") =
      .error (.rejected (.mistake (.wrongAttachment directiveName ⟨.function, "make"⟩))) ∧
    ∃ members, Source.members
      ("@UsefulClass(comparableMembers: [],codingMembers: [],uselessInitializations: \"\")" ++
        " @objc class public var made: Int") = .ok members := by
  let list : ArgumentList :=
    { gap := [], blank := by simp
      inside := Text.joined "," ["comparableMembers: []", "codingMembers: []",
        "uselessInitializations: \"\""]
      balanced := Item.isBalanced_listed (by decide +kernel) }
  let layout : Snippet.Layout directiveName :=
    { before := [], list := some list, passage := " @objc ", modifiers := []
      declaration := ⟨.classType, "Recipe"⟩, gap := [' '], after := [], first := by simp
      passed := @Attribute.IsPassage.bare [' '] "objc" [' '] (by decide) (by decide) (by simp)
        (.blank (by decide))
      apart := by simp, separated := by simp, blank := by decide, identifier := by decide,
        ends := rfl }
  let shared : MemberModifier := ⟨"public", [' '], by decide, by simp, by decide⟩
  let make : WrittenMember :=
    { modifiers := [shared, ⟨"static", [' '], by decide, by simp, by decide⟩], kind := .function,
      gap := [' '], declared := "make() -> Int", introduced := by simp, separated := by simp
      blank := by decide, trimmed := by decide }
  let made : WrittenMember :=
    { modifiers := [⟨"class", [' '], .inr rfl, by simp, by decide⟩, shared], kind := .varBinding,
      gap := [' '], declared := "made: Int", introduced := by simp, separated := by simp
      blank := by decide, trimmed := by decide }
  have hmake :
      ("@UsefulClass(comparableMembers: [],codingMembers: [],uselessInitializations: \"\")" :
        Text) ++ " @objc public static func make() -> Int" = layout.withHead make.written := by
    decide +kernel
  have hmade :
      ("@UsefulClass(comparableMembers: [],codingMembers: [],uselessInitializations: \"\")" :
        Text) ++ " @objc class public var made: Int" = layout.withHead made.written := by
    decide +kernel
  -- The arguments are those of a directive without fields of the author's own.
  have hread : ArgumentList.readOption layout.list =
      .ok (Content.fieldless [] []).directive.arguments := by
    decide +kernel
  constructor
  · obtain ⟨_, _, hmember⟩ := members_attached _
    exact ((hmember layout make _ hmake.symm hread).1 rfl).1 "make" "() -> Int" rfl
  · obtain ⟨_, _, hmember⟩ := members_attached _
    obtain ⟨name, _, _, hmembers⟩ := (hmember layout made _ hmade.symm hread).2 rfl
    exact hmembers.2 (exists_statedBy_fieldless name)

/-- A function of the type itself is taken for a class that bears the name of its keyword. -/
theorem exists_members_class_func :
    ∃ members directive,
      Source.members ("@UsefulClass(comparableMembers: [], codingMembers: [], " ++
        "uselessInitializations: \"\")\nclass func make() \x7b\x7d") = .ok members ∧
      Snippet.read directiveName ("@UsefulClass(comparableMembers: [], codingMembers: [], " ++
        "uselessInitializations: \"\")\nclass func make() \x7b\x7d") =
          .ok ⟨directive, ⟨.classType, DeclarationKind.function.keyword⟩⟩ := by
  have hread :
      Snippet.read directiveName ("@UsefulClass(comparableMembers: [], codingMembers: [], " ++
        "uselessInitializations: \"\")\nclass func make() \x7b\x7d") =
        .ok ⟨(Content.fieldless [] []).directive,
          ⟨.classType, DeclarationKind.function.keyword⟩⟩ := by
    decide +kernel
  obtain ⟨members, hmembers⟩ := (exists_members_iff_of_read hread).2
    (exists_statedBy_fieldless DeclarationKind.function.keyword)
  exact ⟨members, _, hmembers, hread⟩

end Source

end MemberSynthesis
