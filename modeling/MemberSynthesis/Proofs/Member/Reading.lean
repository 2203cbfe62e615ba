import Mathlib.Data.List.Basic
import MemberSynthesis.Member.Construction
import MemberSynthesis.Member.Equality
import MemberSynthesis.Member.Serialization
import MemberSynthesis.Proofs.Directive.Descriptor

/-!
# Reading names back from the lines of a member

Apart from the coding methods, whose lines are transfers, every member names the fields in lines of
a form of its own. The readers below take such a line for what it says. There are three forms: a
name that stands between two fixed texts (`enclosed?`), a name that is written twice (`doubled?`),
and a name with a text of its own behind it, which shows whether the field is optional (`headed?`).
**Each form is read just when a line is written so**, whatever wrote it.

Each form has one equivalence, and the reader of a member is that form with the texts of the member
put in. So for a new member there would be a line to define and nothing to prove but that names end
where the fixed text goes on.

Two readers take more than a line at a time. The comparisons of the equality stand in one line and
are cut apart at the conjunctions (`conjuncts_joined`), and of the lines of a parameter list all but
the last end with a comma (`parameters?_parameterLines`). Both are read as lists of lines of a form
are, once they are cut.

What a type or a zero value looks like is not read. That a field is optional shows in the value it
gets, `nil` and nothing else, and no zero value of a type is spelt so (`zeroValue_ne_nil`).
-/

set_option autoImplicit false

namespace MemberSynthesis

/-- What a line says of a field: its name, and whether it may be without a value. -/
structure Mention where
  name : Text
  optional : Bool
  deriving DecidableEq, Repr

/-- What is to be said of a field. -/
def Mention.ofField (field : Field) : Mention := ⟨field.name, field.nullable⟩

namespace Reader

/-! ## The forms of a line -/

/-- The name that a line holds between two texts. -/
def enclosed? (before after line : Text) : Option Text := do
  let rest ← before.isPrefixOf? line
  let name : Text ← after.isSuffixOf? rest
  if name.isIdentifier then some name else none

/-- The name that a line holds twice, after a text and after another one. Where the two names
differ, nothing is read. -/
def doubled? (before between line : Text) : Option Text := do
  let rest ← before.isPrefixOf? line
  let (name, rest) ← Identifier.split? rest
  let again ← between.isPrefixOf? rest
  if again = name then some name else none

/-- The name that a line starts with; what follows a separator tells whether it is optional. The
rest of the line may be anything. -/
def headed? (separator : Text) (isOptional : Text → Bool) (line : Text) : Option Mention := do
  let (name, rest) ← Identifier.split? line
  let rest ← separator.isPrefixOf? rest
  some ⟨name, isOptional rest⟩

theorem enclosed?_eq_some_iff {before after line name : Text} :
    enclosed? before after line = some name ↔
      name.isIdentifier ∧ line = before ++ name ++ after := by
  simp only [enclosed?, Option.bind_eq_bind, Option.bind_eq_some_iff,
    List.isPrefixOf?_eq_some_iff_append_eq, List.isSuffixOf?_eq_some_iff_append_eq]
  constructor
  · rintro ⟨_, rfl, found, rfl, h⟩
    split at h
    · rename_i hname
      cases h
      exact ⟨hname, (List.append_assoc before name after).symm⟩
    · cases h
  · rintro ⟨hname, rfl⟩
    exact ⟨_, (List.append_assoc before name after).symm, name, rfl, if_pos hname⟩

theorem doubled?_eq_some_iff {before between line name : Text}
    (hbetween : ∀ rest, Text.EndsWord (between ++ rest)) :
    doubled? before between line = some name ↔
      name.isIdentifier ∧ line = before ++ name ++ between ++ name := by
  simp only [doubled?, Option.bind_eq_bind, Option.bind_eq_some_iff, Prod.exists,
    List.isPrefixOf?_eq_some_iff_append_eq, Identifier.split?_eq_some_iff]
  constructor
  · rintro ⟨_, rfl, found, _, ⟨hname, _, rfl⟩, again, rfl, h⟩
    split at h
    · rename_i hagain
      cases h
      exact ⟨hname, by rw [hagain, List.append_assoc, List.append_assoc]⟩
    · cases h
  · rintro ⟨hname, rfl⟩
    refine ⟨name ++ (between ++ name), by simp only [List.append_assoc], name, between ++ name, ?_,
      name, rfl, if_pos rfl⟩
    exact ⟨hname, hbetween name, rfl⟩

theorem headed?_eq_some_iff {separator line : Text} {isOptional : Text → Bool} {mention : Mention}
    (hseparator : ∀ rest, Text.EndsWord (separator ++ rest)) :
    headed? separator isOptional line = some mention ↔
      mention.name.isIdentifier ∧ ∃ rest, line = mention.name ++ separator ++ rest ∧
        isOptional rest = mention.optional := by
  simp only [headed?, Option.bind_eq_bind, Option.bind_eq_some_iff, Prod.exists,
    List.isPrefixOf?_eq_some_iff_append_eq, Identifier.split?_eq_some_iff, Option.some.injEq]
  constructor
  · rintro ⟨name, _, ⟨hname, _, rfl⟩, rest, rfl, rfl⟩
    exact ⟨hname, rest, (List.append_assoc name separator rest).symm, rfl⟩
  · rintro ⟨hname, rest, rfl, hoptional⟩
    refine ⟨mention.name, separator ++ rest, ?_, rest, rfl, by rw [hoptional]⟩
    exact ⟨hname, hseparator rest, List.append_assoc mention.name separator rest⟩

/-! ## The lines of the members -/

/-- A line such as `case name`. -/
def key? : Text → Option Text := enclosed? "case " []

/-- A line such as `hasher.combine(name)`. -/
def hashed? : Text → Option Text := enclosed? "hasher.combine(" ")"

/-- A comparison such as `lhs.name == rhs.name`. -/
def compared? : Text → Option Text := doubled? "lhs." " == rhs."

/-- A line such as `self.name = name`. -/
def assigned? : Text → Option Text := doubled? "self." " = "

/-- A line such as `name = nil`. -/
def default? : Text → Option Mention := headed? " = " fun value => value = "nil"

/-- A parameter such as `name: String? = nil`. -/
def parameter? : Text → Option Mention := headed? ": " fun type => (" = nil" : Text).isSuffixOf type

section Spelled

variable {field : Field}

theorem key?_keyLine {name : Text} (h : name.isIdentifier) :
    key? (Member.keyLine name) = some name :=
  enclosed?_eq_some_iff.2 ⟨h, by rw [Member.keyLine, List.append_nil]⟩

theorem hashed?_hashLine {name : Text} (h : name.isIdentifier) :
    hashed? (Member.hashLine name) = some name :=
  enclosed?_eq_some_iff.2 ⟨h, rfl⟩

theorem compared?_comparison {name : Text} (h : name.isIdentifier) :
    compared? (Member.comparison name) = some name :=
  (doubled?_eq_some_iff fun _ => Text.endsWord_cons (by decide)).2 ⟨h, rfl⟩

theorem assigned?_assignmentLine (h : field.IsSpelled) :
    assigned? (Member.assignmentLine field) = some field.name :=
  (doubled?_eq_some_iff fun _ => Text.endsWord_cons (by decide)).2 ⟨h.name, rfl⟩

/-- No zero value passes for a missing one: they are quoted, numerals, or end with a bracket. -/
theorem zeroValue_ne_nil (typeName : Text) (kind : ValueKind) :
    kind.zeroValue typeName ≠ "nil" := by
  intro h
  cases kind with
  | text => exact absurd h (show ("\"\"" : Text) ≠ "nil" by decide)
  | integer => exact absurd h (show ("0" : Text) ≠ "nil" by decide)
  | floating => exact absurd h (show ("0.0" : Text) ≠ "nil" by decide)
  | other =>
    have hmem : CodePoint.scalar ')' ∈ typeName ++ ("()" : Text) :=
      List.mem_append_right typeName (by decide)
    rw [show typeName ++ ("()" : Text) = "nil" from h] at hmem
    revert hmem
    decide

theorem default?_defaultLine (h : field.IsSpelled) :
    default? (Member.defaultLine field) = some (.ofField field) := by
  apply (headed?_eq_some_iff fun _ => Text.endsWord_cons (by decide)).2
  refine ⟨h.name, Member.initialValue field, rfl, ?_⟩
  rw [Member.initialValue, Mention.ofField]
  cases field.nullable with
  | false => simpa using zeroValue_ne_nil field.typeName field.kind
  | true => rfl

theorem parameter?_parameter (h : field.IsSpelled) :
    parameter? (Member.parameter field) = some (.ofField field) := by
  apply (headed?_eq_some_iff fun _ => Text.endsWord_cons (by decide)).2
  rw [Member.parameter, Field.writtenType, Mention.ofField]
  cases field.nullable with
  | false =>
    refine ⟨h.name, field.typeName, rfl, ?_⟩
    -- A type holds no equals sign, so it does not end as the parameter of an optional field does.
    rw [Bool.eq_false_iff, ne_eq, List.isSuffixOf_iff_suffix]
    intro hsuffix
    exact Descriptor.not_mem_of_isType h.typeName (c := CodePoint.scalar '=') (by decide)
      (hsuffix.subset (by decide))
  | true =>
    refine ⟨h.name, field.typeName ++ "?" ++ " = nil", ?_, ?_⟩
    · simp only [if_true, List.append_assoc]
    · exact List.isSuffixOf_iff_suffix.2 (List.suffix_append _ _)

end Spelled

/-! ## The conjuncts of a condition -/

/-- The texts that stand between the conjunctions of a condition. -/
def conjuncts : Text → List Text
  | [] => [[]]
  | .scalar ' ' :: .scalar '&' :: .scalar '&' :: .scalar ' ' :: rest => [] :: conjuncts rest
  | c :: rest =>
    match conjuncts rest with
    | [] => [[c]]
    | first :: more => (c :: first) :: more

theorem conjuncts_of_not_mem {text : Text} (h : CodePoint.scalar '&' ∉ text) :
    conjuncts text = [text] := by
  induction text with
  | nil => rfl
  | cons c more ih =>
    rw [List.mem_cons, not_or] at h
    rw [conjuncts, ih h.2]
    rintro rest rfl rfl
    exact h.2 List.mem_cons_self

theorem conjuncts_append {text rest : Text} (h : CodePoint.scalar '&' ∉ text) :
    conjuncts (text ++ (" && " ++ rest)) = text :: conjuncts rest := by
  induction text with
  | nil => rfl
  | cons c more ih =>
    rw [List.mem_cons, not_or] at h
    rw [List.cons_append, conjuncts, ih h.2]
    -- What is left to show is that no conjunction starts with `c`: no ampersand comes next.
    intro rest' hc hmore
    cases more with
    | nil => cases hmore
    | cons d more =>
      rw [List.cons_append, List.cons.injEq] at hmore
      exact h.2 (hmore.1 ▸ List.mem_cons_self)

/-- **Conjuncts without ampersands are found again.** Those of identifiers are, and of other names
this may fail. -/
theorem conjuncts_joined {texts : List Text} (hne : texts ≠ [])
    (h : ∀ text ∈ texts, CodePoint.scalar '&' ∉ text) :
    conjuncts (Text.joined " && " texts) = texts := by
  induction texts with
  | nil => exact absurd rfl hne
  | cons text more ih =>
    have htext := h text List.mem_cons_self
    cases more with
    | nil => rw [Text.joined_singleton, conjuncts_of_not_mem htext]
    | cons next more =>
      have hmore := ih (List.cons_ne_nil _ _) fun other hother =>
        h other (List.mem_cons_of_mem _ hother)
      rw [Text.joined_cons _ _ (List.cons_ne_nil _ _), conjuncts_append htext, hmore]

/-! ## The lines of a parameter list -/

/-- The parameters of the lines of a parameter list: each is one step to the right, and all but the
last have a comma behind them. A line of another kind makes the whole unreadable. -/
def parameters? : List Text → Option (List Mention)
  | [] => some []
  | [last] => do
    let text ← Member.indent.isPrefixOf? last
    let mention ← parameter? text
    return [mention]
  | line :: next :: more => do
    let text ← Member.indent.isPrefixOf? line
    let text ← (("," : Text).isSuffixOf? text : Option Text)
    let mention ← parameter? text
    let others ← parameters? (next :: more)
    return mention :: others

/-- **The parameters of spelled fields are read from the lines of their list.** A type may end with
a comma, but the comma that is taken off is the last one. -/
theorem parameters?_parameterLines {fields : List Field} (h : ∀ field ∈ fields, field.IsSpelled) :
    parameters? (Member.parameterLines (fields.map Member.parameter)) =
      some (fields.map Mention.ofField) := by
  induction fields with
  | nil => rfl
  | cons field more ih =>
    have hfield := parameter?_parameter (h field List.mem_cons_self)
    have hmore := ih fun other hother => h other (List.mem_cons_of_mem field hother)
    cases more with
    | nil =>
      have hindent : Member.indent.isPrefixOf? (Member.indent ++ Member.parameter field) =
          some (Member.parameter field) :=
        List.isPrefixOf?_eq_some_iff_append_eq.2 rfl
      simp only [List.map_cons, List.map_nil, Member.parameterLines, parameters?, hindent, hfield,
        Option.bind_eq_bind, Option.bind_some, Option.pure_def]
    | cons next more =>
      have hindent : Member.indent.isPrefixOf? (Member.indent ++ Member.parameter field ++ ",") =
          some (Member.parameter field ++ ",") :=
        List.isPrefixOf?_eq_some_iff_append_eq.2 (List.append_assoc _ _ _).symm
      have hcomma : ("," : Text).isSuffixOf? (Member.parameter field ++ ",") =
          some (Member.parameter field) :=
        List.isSuffixOf?_eq_some_iff_append_eq.2 rfl
      -- A line that others follow ends with a comma, so that they have to be seen first.
      obtain ⟨line, lines, hlines⟩ : ∃ line lines,
          Member.parameterLines ((next :: more).map Member.parameter) = line :: lines := by
        cases more with
        | nil => exact ⟨_, _, rfl⟩
        | cons => exact ⟨_, _, rfl⟩
      rw [List.map_cons, List.map_cons, Member.parameterLines, ← List.map_cons, hlines, parameters?,
        ← hlines, hmore, hindent, Option.bind_eq_bind, Option.bind_some, hcomma,
          Option.bind_eq_bind,
        Option.bind_some, hfield]
      rfl

end Reader

/-! ## Each line is one line -/

namespace Member

theorem not_mem_comparison {name : Text} (h : name.isIdentifier) {c : CodePoint}
    (hword : c.isWord = false) (hleft : c ∉ ("lhs." : Text)) (hright : c ∉ (" == rhs." : Text)) :
    c ∉ comparison name := by
  have hname : c ∉ name := Text.not_mem_of_isIdentifier h hword
  simp only [comparison, List.mem_append, not_or]
  exact ⟨⟨⟨hleft, hname⟩, hright⟩, hname⟩

/-- The conjuncts of a condition on identifiers are its comparisons. -/
theorem conjuncts_agreement {names : List Text} (hne : names ≠ [])
    (h : ∀ name ∈ names, name.isIdentifier) :
    Reader.conjuncts (agreement names) = names.map comparison := by
  apply Reader.conjuncts_joined (by simpa using hne)
  intro text htext
  obtain ⟨name, hname, rfl⟩ := List.mem_map.1 htext
  exact not_mem_comparison (h name hname) (by decide) (by decide) (by decide)

theorem feed_not_mem_zeroValue {typeName : Text} (h : Descriptor.isType typeName)
    (kind : ValueKind) :
    CodePoint.scalar '\n' ∉ kind.zeroValue typeName := by
  cases kind with
  | text => exact show CodePoint.scalar '\n' ∉ ("\"\"" : Text) by decide
  | integer => exact show CodePoint.scalar '\n' ∉ ("0" : Text) by decide
  | floating => exact show CodePoint.scalar '\n' ∉ ("0.0" : Text) by decide
  | other =>
    rw [ValueKind.zeroValue, List.mem_append, not_or]
    exact ⟨Descriptor.not_mem_of_isType h (by decide), by decide⟩

theorem feed_not_mem_defaultLine {field : Field} (h : field.IsSpelled) :
    CodePoint.scalar '\n' ∉ defaultLine field := by
  have hname : CodePoint.scalar '\n' ∉ field.name := Text.not_mem_of_isIdentifier h.name (by decide)
  have hvalue : CodePoint.scalar '\n' ∉ initialValue field := by
    rw [initialValue]
    split
    · decide
    · exact feed_not_mem_zeroValue h.typeName field.kind
  simp only [defaultLine, List.mem_append, not_or]
  exact ⟨⟨hname, by decide⟩, hvalue⟩

end Member

end MemberSynthesis
