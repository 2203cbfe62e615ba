import Mathlib.Data.List.DropRight
import MemberSynthesis.Proofs.Member.Agreement

/-!
# Names that a fragment binds itself

The hash, the two coding methods and the initializer without arguments refer to the fields by their
bare names. The first three also bind names of their own: a parameter in the header, and the
container in the line that opens the body. A field of such a name is **captured**: its name stands
for the parameter or the container, and not for the member.

Nothing keeps a directive from describing such a field, so capture does occur
(`exists_captures_container`), and then the generated code is not what its author wants: the
encoding method stores its container, and the decoding initializer assigns to it. It is the names
that decide: **no field is captured just when none is called `hasher`, `decoder`, `encoder` or
`container`** (`captures_iff_of_interpret`). Both sets of names are read from the text of the
members, line by line, without the statements of the schema, which the author answers for.

The other members put `self` or one of the two values they compare before a name, with a dot
between, and a qualified name is never captured. Nor does the memberwise initializer need to be
looked at, since its parameters are bound to the fields of the same names on purpose.
-/

set_option autoImplicit false

namespace MemberSynthesis

namespace Reader

/-- The name of the parameter that a header such as `init(from decoder: Decoder) throws` lists: the
last word before the first colon behind the bracket. -/
def parameterName? (header : Text) : Option Text :=
  let inside := (header.dropWhile fun c => c ≠ CodePoint.scalar '(').drop 1
  (Identifier.splitEnd? (inside.takeWhile fun c => c ≠ CodePoint.scalar ':')).map Prod.snd

/-- The name that a line such as `let container = …` binds. -/
def local? (line : Text) : Option Text := do
  let (keyword, rest) ← Identifier.split? line
  let rest ← (" " : Text).isPrefixOf? rest
  let (name, _) ← Identifier.split? rest
  if keyword = "let" ∨ keyword = "var" then some name else none

/-- How a line of a member shows the bare name of a field, if its lines do. For the members not
listed, no bare name is read. -/
def bare? : MemberKind → Option (Text → Option Text)
  | .hash => some hashed?
  | .decodingInit => some fun line => (Transfer.ofDecodeLine? line).map Transfer.member
  | .encode => some fun line => (Transfer.ofEncodeLine? line).map Transfer.member
  | .emptyInit => some fun line => (default? line).map Mention.name
  | _ => none

/-- An assignment binds no name, even if it is to a member whose name is a keyword. What is bound
needs a keyword and a name with a space between them. -/
theorem local?_of_equals {name rest : Text} (hname : name.isIdentifier) :
    local? (name ++ (" = " ++ rest)) = none := by
  have hsplit : Identifier.split? (name ++ (" = " ++ rest)) = some (name, " = " ++ rest) :=
    Identifier.split?_eq_some_iff.2 ⟨hname, Text.endsWord_cons (by decide), rfl⟩
  rw [local?, hsplit]
  rfl

end Reader

/-- The names that a member binds, and the bare names of fields in it, both in the order in which
they stand in the text. -/
structure Scope where
  bound : List Text
  used : List Text
  deriving DecidableEq, Repr

namespace Schema

/-- How many lines the statements of the schema take at the end of a member. Only the three
initializers have them. -/
def statementCount (schema : Schema) : MemberKind → Nat
  | .decodingInit | .emptyInit | .memberwiseInit => schema.initializerLines.length
  | _ => 0

/-- The scope of the member of a kind, if fields have bare names in it. The statements of the schema
are left out: they are not generated. -/
def scope? (schema : Schema) (kind : MemberKind) : Option Scope := do
  let ofLine? ← Reader.bare? kind
  let member ← schema.members.find? fun member => member.kind = kind
  let header ← member.text.feedLines.head?
  let body ← Member.bodyLines? member.text
  let lines := body.rdrop (schema.statementCount kind)
  some ⟨(Reader.parameterName? header).toList ++ lines.filterMap Reader.local?,
    lines.filterMap ofLine?⟩

/-- The bare name of a field stands for something that the member binds. -/
def Captures (schema : Schema) (kind : MemberKind) (name : Text) : Prop :=
  ∃ scope, schema.scope? kind = some scope ∧ name ∈ scope.bound ∧ name ∈ scope.used

variable {schema : Schema}

theorem filterMap_of_mapM {α β : Type} {f : α → Option β} {xs : List α} {ys : List β}
    (h : xs.mapM f = some ys) : xs.filterMap f = ys := by
  induction xs generalizing ys with
  | nil =>
    cases h
    rfl
  | cons x more ih =>
    simp only [List.mapM_cons, Option.bind_eq_bind, Option.bind_eq_some_iff, Option.pure_def,
      Option.some.injEq] at h
    obtain ⟨y, hy, others, hothers, rfl⟩ := h
    rw [List.filterMap_cons_some hy, ih hothers]

/-- A member binds the names of its header and of its opening lines, and its other lines show the
bare names of fields. With this lemma a scope is computed from a block and three facts on its
lines. -/
theorem scope?_of_hasBlock {kind : MemberKind} {header : Text}
    {opening lines statements bound names : List Text} {ofLine? : Text → Option Text}
    (hread : Reader.bare? kind = some ofLine?)
    (hblock : schema.HasBlock kind [header] (opening ++ lines ++ statements))
    (hcount : schema.statementCount kind = statements.length)
    (hopening : opening.filterMap ofLine? = [])
    (hbound : (Reader.parameterName? header).toList ++ opening.filterMap Reader.local? = bound)
    (hlocal : ∀ line ∈ lines, Reader.local? line = none)
    (hnames : lines.mapM ofLine? = some names) :
    schema.scope? kind = some ⟨bound, names⟩ := by
  obtain ⟨name, text, hmember, hlines⟩ := hblock
  have hfound : schema.members.find? (fun member => member.kind = kind) =
      some ⟨kind, name, text⟩ := by
    rw [← List.head?_filter, hmember]
    rfl
  have hbody : Member.bodyLines? text = some (opening ++ lines ++ statements) :=
    Member.bodyLines?_of_feedLines hlines
  have hkept : (opening ++ lines ++ statements).rdrop statements.length = opening ++ lines :=
    List.rdrop_append_length
  have hlocals : (opening ++ lines).filterMap Reader.local? = opening.filterMap Reader.local? := by
    rw [List.filterMap_append, List.filterMap_eq_nil_iff.2 hlocal, List.append_nil]
  have hused : (opening ++ lines).filterMap ofLine? = names := by
    rw [List.filterMap_append, hopening, filterMap_of_mapM hnames, List.nil_append]
  simp only [scope?, hread, hfound, hlines, hbody, hcount, hkept, hlocals, hused, hbound,
    Option.bind_eq_bind, Option.bind_some, List.singleton_append, List.head?_cons]

theorem captures_of_scope? {kind : MemberKind} {name : Text} {scope : Scope}
    (h : schema.scope? kind = some scope) :
    schema.Captures kind name ↔ name ∈ scope.bound ∧ name ∈ scope.used := by
  simp [Captures, h]

theorem mem_withoutIdentity_iff {name : Text} :
    name ∈ schema.withoutIdentity.map Field.name ↔ name ∈ schema.codingNames ∧ name ≠ "id" := by
  simp only [withoutIdentity, codingNames, List.mem_map, List.mem_filter, decide_eq_true_eq]
  constructor
  · rintro ⟨field, ⟨hfield, hname⟩, rfl⟩
    exact ⟨⟨field, hfield, rfl⟩, hname⟩
  · rintro ⟨⟨field, hfield, rfl⟩, hname⟩
    exact ⟨field, ⟨hfield, hname⟩, rfl⟩

/-! ## The scopes of a schema

One equation for each of the four members, and from them when a name is in both lists of one scope.
The names bound are fixed texts, so that is a comparison of the field's name with two words at
most. -/

namespace WellMade

theorem scope?_hash (h : schema.WellMade) :
    schema.scope? .hash = some ⟨["hasher"], schema.codingNames⟩ := by
  have hblock : schema.HasBlock .hash [Member.opened "func hash(into hasher: inout Hasher)"]
      ([] ++ schema.codingNames.map Member.hashLine ++ []) := by
    rw [List.append_nil]
    exact h.hasBlock_hash
  refine scope?_of_hasBlock rfl hblock rfl rfl (by decide) ?_ (h.mapM_names Reader.hashed?_hashLine)
  intro line hline
  obtain ⟨name, _, rfl⟩ := List.mem_map.1 hline
  rfl

theorem scope?_encode (h : schema.WellMade) :
    schema.scope? .encode = some ⟨["encoder", "container"], schema.codingNames⟩ := by
  have hblock : schema.HasBlock .encode
      [Member.opened "func encode(to encoder: Encoder) throws"]
      ([Member.encodingContainer, []] ++ schema.codingFields.map Member.encodeLine ++ []) := by
    rw [List.append_nil]
    exact h.hasBlock_encode
  have hnames : (schema.codingFields.map Member.encodeLine).mapM
      (fun line => (Transfer.ofEncodeLine? line).map Transfer.member) =
        some schema.codingNames := by
    apply Outcome.mapM_map_eq_some
    intro field hfield
    rw [Transfer.ofEncodeLine?_encodeLine (h.isSpelled_of_mem hfield)]
    rfl
  refine scope?_of_hasBlock rfl hblock rfl rfl (by decide) ?_ hnames
  intro line hline
  obtain ⟨field, _, rfl⟩ := List.mem_map.1 hline
  rfl

theorem scope?_decodingInit (h : schema.WellMade) :
    schema.scope? .decodingInit =
      some ⟨["decoder", "container"], schema.withoutIdentity.map Field.name⟩ := by
  have hblock : schema.HasBlock .decodingInit [Member.decodingHeader schema.declarationKind]
      ([Member.decodingContainer, []] ++ schema.writable.map Member.decodeLine ++
        schema.initializerLines) :=
    h.hasBlock_decodingInit
  have hnames : (schema.writable.map Member.decodeLine).mapM
      (fun line => (Transfer.ofDecodeLine? line).map Transfer.member) =
        some (schema.writable.map Field.name) := by
    apply Outcome.mapM_map_eq_some
    intro field hfield
    rw [Transfer.ofDecodeLine?_decodeLine (h.isSpelled_of_mem_writable hfield)]
    rfl
  have hlocal : ∀ line ∈ schema.writable.map Member.decodeLine, Reader.local? line = none := by
    intro line hline
    obtain ⟨field, hfield, rfl⟩ := List.mem_map.1 hline
    rw [Member.decodeLine]
    simp only [List.append_assoc]
    exact Reader.local?_of_equals (h.isSpelled_of_mem_writable hfield).name
  have hbound : (Reader.parameterName? (Member.decodingHeader schema.declarationKind)).toList ++
      [Member.decodingContainer, []].filterMap Reader.local? = ["decoder", "container"] := by
    rw [Member.decodingHeader]
    split <;> decide
  rw [h.withoutIdentity_eq]
  exact scope?_of_hasBlock rfl hblock rfl rfl hbound hlocal hnames

theorem scope?_emptyInit (h : schema.WellMade) :
    schema.scope? .emptyInit = some ⟨[], schema.withoutIdentity.map Field.name⟩ := by
  have hblock : schema.HasBlock .emptyInit [Member.opened "init()"]
      ([] ++ schema.writable.map Member.defaultLine ++ schema.initializerLines) :=
    h.hasBlock_emptyInit
  have hnames : (schema.writable.map Member.defaultLine).mapM
      (fun line => (Reader.default? line).map Mention.name) =
        some (schema.writable.map Field.name) := by
    apply Outcome.mapM_map_eq_some
    intro field hfield
    rw [Reader.default?_defaultLine (h.isSpelled_of_mem_writable hfield)]
    rfl
  rw [h.withoutIdentity_eq]
  refine scope?_of_hasBlock rfl hblock rfl rfl (by decide) ?_ hnames
  intro line hline
  obtain ⟨field, hfield, rfl⟩ := List.mem_map.1 hline
  rw [Member.defaultLine, List.append_assoc]
  exact Reader.local?_of_equals (h.isSpelled_of_mem_writable hfield).name

/-- **Where a field is captured**: in the hash or in one of the coding methods, and by its name. All
other members bind nothing, or have no bare names. -/
theorem captures_iff (h : schema.WellMade) {kind : MemberKind} {name : Text} :
    schema.Captures kind name ↔ name ∈ schema.codingNames ∧
      (kind = .hash ∧ name = "hasher" ∨
        kind = .decodingInit ∧ (name = "decoder" ∨ name = "container") ∨
        kind = .encode ∧ (name = "encoder" ∨ name = "container")) := by
  cases kind with
  | hash =>
    rw [captures_of_scope? h.scope?_hash]
    simp [and_comm]
  | decodingInit =>
    -- The identity is not decoded, but neither is it one of the names that are bound.
    have hid : name = "decoder" ∨ name = "container" → name ≠ "id" := by
      rintro (rfl | rfl) <;> decide
    rw [captures_of_scope? h.scope?_decodingInit, mem_withoutIdentity_iff]
    simp only [List.mem_cons, List.not_mem_nil, or_false, reduceCtorEq, false_and, true_and,
      false_or]
    constructor
    · rintro ⟨hbound, hname, _⟩
      exact ⟨hname, hbound⟩
    · rintro ⟨hname, hbound⟩
      exact ⟨hbound, hname, hid hbound⟩
  | encode =>
    rw [captures_of_scope? h.scope?_encode]
    simp [and_comm]
  | emptyInit =>
    rw [captures_of_scope? h.scope?_emptyInit]
    simp
  | storedProperty | computedProperty | propertiesEqual | equality | codingKeys | memberwiseInit =>
    simp [Captures, scope?, Reader.bare?]

end WellMade

end Schema

namespace Directive

/-- **Just four names are captured.** For every schema that comes from a directive, the hash binds
`hasher`, the decoding initializer `decoder` and `container`, the encoding `encoder` and
`container`, and the initializer without arguments binds nothing. No bare name of a field stands for
something that was bound so, just when no coding field has one of these four names. -/
theorem captures_iff_of_interpret {directive : Attribute} {declaration : Declaration}
    {schema : Schema} (h : interpret directive declaration = .ok schema) :
    schema.scope? .hash = some ⟨["hasher"], schema.codingNames⟩ ∧
      schema.scope? .decodingInit =
        some ⟨["decoder", "container"], schema.withoutIdentity.map Field.name⟩ ∧
      schema.scope? .encode = some ⟨["encoder", "container"], schema.codingNames⟩ ∧
      schema.scope? .emptyInit = some ⟨[], schema.withoutIdentity.map Field.name⟩ ∧
      ((∀ kind name, ¬ schema.Captures kind name) ↔
        ∀ name ∈ (["hasher", "decoder", "encoder", "container"] : List Text),
          name ∉ schema.codingNames) := by
  have hmade := Schema.wellMade_of_interpret h
  refine ⟨hmade.scope?_hash, hmade.scope?_decodingInit, hmade.scope?_encode, hmade.scope?_emptyInit,
    ?_⟩
  constructor
  · intro hfree name hbound hname
    simp only [List.mem_cons, List.not_mem_nil, or_false] at hbound
    rcases hbound with rfl | rfl | rfl | rfl
    · exact hfree .hash _ (hmade.captures_iff.2 ⟨hname, .inl ⟨rfl, rfl⟩⟩)
    · exact hfree .decodingInit _ (hmade.captures_iff.2 ⟨hname, .inr (.inl ⟨rfl, .inl rfl⟩)⟩)
    · exact hfree .encode _ (hmade.captures_iff.2 ⟨hname, .inr (.inr ⟨rfl, .inl rfl⟩)⟩)
    · exact hfree .encode _ (hmade.captures_iff.2 ⟨hname, .inr (.inr ⟨rfl, .inr rfl⟩)⟩)
  · intro hfresh kind name hcaptures
    obtain ⟨hname, hwhere⟩ := hmade.captures_iff.1 hcaptures
    refine hfresh name ?_ hname
    rcases hwhere with ⟨_, rfl⟩ | ⟨_, rfl | rfl⟩ | ⟨_, rfl | rfl⟩ <;> decide

/-- A type with one field of its own, of a given name. -/
def Content.single (name : Text) : Content where
  comparable := []
  descriptors := [name ++ ": Int"]
  own := [⟨name, "Int", false, false⟩]
  statements := []

/-- A weight is never captured. -/
theorem not_captures_weight :
    ∃ schema, interpret (Content.single "weight").directive ⟨.classType, "Recipe"⟩ = .ok schema ∧
      ∀ kind name, ¬ schema.Captures kind name := by
  have hinterpret : interpret (Content.single "weight").directive ⟨.classType, "Recipe"⟩ =
      .ok ((Content.single "weight").schema ⟨.classType, "Recipe"⟩) :=
    interpret_directive (by decide) (.cons (by decide +kernel) .nil) (by decide +kernel)
  obtain ⟨_, _, _, _, hfree⟩ := captures_iff_of_interpret hinterpret
  exact ⟨_, hinterpret, hfree.2 (by decide +kernel)⟩

/-- A container is captured in both coding methods: what is encoded is the container of the method,
and not the one of the type. -/
theorem exists_captures_container :
    ∃ schema, interpret (Content.single "container").directive ⟨.classType, "Recipe"⟩ = .ok schema ∧
      schema.Captures .decodingInit "container" ∧ schema.Captures .encode "container" := by
  have hinterpret : interpret (Content.single "container").directive ⟨.classType, "Recipe"⟩ =
      .ok ((Content.single "container").schema ⟨.classType, "Recipe"⟩) :=
    interpret_directive (by decide) (.cons (by decide +kernel) .nil) (by decide +kernel)
  have hmade := Schema.wellMade_of_interpret hinterpret
  have hname : ("container" : Text) ∈
      ((Content.single "container").schema ⟨.classType, "Recipe"⟩).codingNames := by decide +kernel
  refine ⟨_, hinterpret, ?_, ?_⟩
  · exact hmade.captures_iff.2 ⟨hname, .inr (.inl ⟨rfl, .inr rfl⟩)⟩
  · exact hmade.captures_iff.2 ⟨hname, .inr (.inr ⟨rfl, .inr rfl⟩)⟩

end Directive

end MemberSynthesis
