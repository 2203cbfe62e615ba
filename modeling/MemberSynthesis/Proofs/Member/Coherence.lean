import MemberSynthesis.Proofs.Member.Agreement
import MemberSynthesis.Proofs.Member.Conjunction

/-!
# Equality, hash and weaker equality fit together

What the generated comparisons and the hash mean is read off their texts. A value of the type gives
a value to every name. The condition of an equality is a conjunction of comparisons of two such
values (`Schema.comparison?`), and the hash feeds the values of some names to the hasher one after
the other (`Schema.hashSequence?`); where a text cannot be read that way, there is no result.

**The equality compares the coding fields and nothing else, equal values hash alike, and the weaker
equality follows from the equality if it compares coding fields only** (`coherent_of_interpret`). To
repeat the names that it compares, or to put them in another order, makes no difference: a condition
says as much as the set of its names, and it can be read or not whatever their order is.

The last clause of the theorem is about *two* directives, and the second one is quantified over. It
need not be known that the names are identifiers: if one of them is none, neither condition can be
read, and the two meanings are again the same. For the clause before it this is known, as names of
coding fields are identifiers.

What the hasher does with the sequence it is fed is its own affair. Two values that are fed the same
sequence have the same hash; the converse is not claimed.
-/

set_option autoImplicit false

namespace MemberSynthesis

namespace Reader

/-- The condition that a comparison returns: what stands between its header and its last line. The
name of the type is part of the header, and has to be known. -/
def condition? (operator typeName text : Text) : Option Text := do
  let rest ← (Member.comparisonHeader operator typeName ++ "\n    return " : Text).isPrefixOf? text
  ("\n\x7d" : Text).isSuffixOf? rest

/-- The names of the fields that a comparison compares. -/
def comparedNames? (operator typeName text : Text) : Option (List Text) := do
  let condition ← condition? operator typeName text
  (conjuncts condition).mapM compared?

/-- The names of the fields that a hash feeds to the hasher, line by line, if every line of its body
does just that. -/
def hashedNames? (text : Text) : Option (List Text) := do
  let lines ← Member.bodyLines? text
  lines.mapM hashed?

theorem condition?_braced (operator typeName condition : Text) :
    condition? operator typeName
      (Member.braced (Member.comparisonHeader operator typeName) ["return " ++ condition]) =
        some condition := by
  have hline : Text.indented Member.indent ("return " ++ condition) =
      "    return " ++ condition := rfl
  have hblock : Member.braced (Member.comparisonHeader operator typeName) ["return " ++ condition] =
      Member.comparisonHeader operator typeName ++ "\n    return " ++ (condition ++ "\n\x7d") := by
    rw [Member.braced, List.map_singleton, hline, List.cons_append,
      Text.stacked_cons (by simp), List.singleton_append, Text.stacked_cons (by simp)]
    simp [Text.stacked, Text.joined_singleton, Text.ofString]
  rw [condition?, hblock]
  simp only [Option.bind_eq_bind, Option.bind_eq_some_iff, List.isPrefixOf?_eq_some_iff_append_eq,
    List.isSuffixOf?_eq_some_iff_append_eq]
  exact ⟨_, rfl, rfl⟩

end Reader

namespace Schema

/-! ## What the members mean

A value of the type is a function from names to values. Each member is looked up by its kind, read
as text, and then means a truth value or a sequence; whatever can not be read has no meaning. -/

/-- The text of the only member of a kind. If there were several, it would not be known which one is
meant. -/
def memberText? (schema : Schema) (kind : MemberKind) : Option Text :=
  match schema.members.filter (fun member => member.kind = kind) with
  | [member] => some member.text
  | _ => none

variable {V : Type}

/-- What the generated hash feeds to the hasher, in the order of the lines. -/
def hashSequence? (schema : Schema) (value : Text → V) : Option (List V) := do
  let text ← schema.memberText? .hash
  let names ← Reader.hashedNames? text
  return names.map value

variable [DecidableEq V]

/-- What a comparison says of two values: whether they agree on all the names that it compares. -/
def comparison? (schema : Schema) (kind : MemberKind) (operator : Text) (left right : Text → V) :
    Option Bool := do
  let text ← schema.memberText? kind
  let names ← Reader.comparedNames? operator schema.typeName text
  return decide (∀ name ∈ names, left name = right name)

/-- What the generated equality says of two values. -/
def equal? (schema : Schema) (left right : Text → V) : Option Bool :=
  schema.comparison? .equality "== " left right

/-- What the generated weaker equality says of two values. -/
def propertiesEqual? (schema : Schema) (left right : Text → V) : Option Bool :=
  schema.comparison? .propertiesEqual "propertiesEqual" left right

/-! ## What they compare -/

variable {schema other : Schema} {left right : Text → V}

/-- A comparison of identifiers says whether two values agree on them. There must be one name at
least, for the empty conjunction is no condition. -/
theorem comparison?_eq_some {kind : MemberKind} {operator : Text} {names : List Text}
    (hmember : schema.memberText? kind = some (Member.braced
      (Member.comparisonHeader operator schema.typeName) ["return " ++ Member.agreement names]))
    (hne : names ≠ []) (h : ∀ name ∈ names, name.isIdentifier) :
    schema.comparison? kind operator left right =
      some (decide (∀ name ∈ names, left name = right name)) := by
  have hnames := (Member.conjuncts_agreement_eq_some_iff hne).2 ⟨rfl, h⟩
  simp only [comparison?, hmember, Reader.comparedNames?, Reader.condition?_braced, hnames,
    Option.bind_eq_bind, Option.bind_some, Option.pure_def]

/-- A comparison of anything else says nothing, since the whole condition is read or nothing of
it. -/
theorem comparison?_eq_none {kind : MemberKind} {operator : Text} {names : List Text}
    (hmember : schema.memberText? kind = some (Member.braced
      (Member.comparisonHeader operator schema.typeName) ["return " ++ Member.agreement names]))
    (hne : names ≠ []) (h : ¬ ∀ name ∈ names, name.isIdentifier) :
    schema.comparison? kind operator left right = none := by
  have hnames : (Reader.conjuncts (Member.agreement names)).mapM Reader.compared? = none := by
    rw [Option.eq_none_iff_forall_ne_some]
    intro read hread
    exact h ((Member.conjuncts_agreement_eq_some_iff hne).1 hread).2
  simp only [comparison?, hmember, Reader.comparedNames?, Reader.condition?_braced, hnames,
    Option.bind_eq_bind, Option.bind_some, Option.bind_none]

/-- **The equality holds just when two values agree on every coding field**, the computed one
included. -/
theorem WellMade.equal?_eq (h : schema.WellMade) :
    schema.equal? left right =
      some (decide (∀ name ∈ schema.codingNames, left name = right name)) :=
  comparison?_eq_some rfl (List.ne_nil_of_mem h.identity_mem) fun _ => h.isIdentifier_of_mem

/-- **The hash feeds on every coding field**, in their order, and on nothing else. -/
theorem WellMade.hashSequence?_eq {V : Type} (h : schema.WellMade) (value : Text → V) :
    schema.hashSequence? value = some (schema.codingNames.map value) := by
  have hlines : Member.bodyLines? (Member.hash schema).text =
      some (schema.codingNames.map Member.hashLine) :=
    Member.bodyLines?_braced (by decide) h.feed_not_mem_hashLines
  have hmember : schema.memberText? .hash = some (Member.hash schema).text := rfl
  simp only [hashSequence?, hmember, Reader.hashedNames?, hlines,
    h.mapM_names Reader.hashed?_hashLine, Option.bind_eq_bind, Option.bind_some, Option.pure_def]

/-- The weaker equality of coding fields follows from the equality, because it compares some of the
names that the equality compares. -/
theorem WellMade.propertiesEqual?_of_equal? (h : schema.WellMade)
    (hne : schema.comparableFields ≠ [])
    (hcoding : ∀ name ∈ schema.comparableFields, name ∈ schema.codingNames) :
    schema.propertiesEqual? left right =
        some (decide (∀ name ∈ schema.comparableFields, left name = right name)) ∧
      (schema.equal? left right = some true → schema.propertiesEqual? left right = some true) := by
  have hvalue : schema.propertiesEqual? left right =
      some (decide (∀ name ∈ schema.comparableFields, left name = right name)) :=
    comparison?_eq_some rfl hne fun name hname => h.isIdentifier_of_mem (hcoding name hname)
  refine ⟨hvalue, ?_⟩
  intro hequal
  rw [h.equal?_eq] at hequal
  have hagree := of_decide_eq_true (Option.some.inj hequal)
  rw [hvalue, decide_eq_true fun name hname => hagree name (hcoding name hname)]

/-- **The weaker equality says as much as the set of the names that it compares.** If one of them is
no identifier, then it says nothing, whatever the order and the repetitions. -/
theorem propertiesEqual?_congr (hne : schema.comparableFields ≠ [])
    (h : ∀ name, name ∈ other.comparableFields ↔ name ∈ schema.comparableFields) :
    other.propertiesEqual? left right = schema.propertiesEqual? left right := by
  have hother : other.comparableFields ≠ [] := by
    obtain ⟨name, hname⟩ := List.exists_mem_of_ne_nil _ hne
    exact List.ne_nil_of_mem ((h name).2 hname)
  by_cases hidentifiers : ∀ name ∈ schema.comparableFields, name.isIdentifier
  · have hothers : ∀ name ∈ other.comparableFields, name.isIdentifier :=
      fun name hname => hidentifiers name ((h name).1 hname)
    have hleft : other.propertiesEqual? left right =
        some (decide (∀ name ∈ other.comparableFields, left name = right name)) :=
      comparison?_eq_some rfl hother hothers
    have hright : schema.propertiesEqual? left right =
        some (decide (∀ name ∈ schema.comparableFields, left name = right name)) :=
      comparison?_eq_some rfl hne hidentifiers
    simp only [hleft, hright, h]
  · have hothers : ¬ ∀ name ∈ other.comparableFields, name.isIdentifier := by
      intro hall
      exact hidentifiers fun name hname => hall name ((h name).2 hname)
    have hleft : other.propertiesEqual? left right = none := comparison?_eq_none rfl hother hothers
    have hright : schema.propertiesEqual? left right = none :=
      comparison?_eq_none rfl hne hidentifiers
    rw [hleft, hright]

end Schema

namespace Directive

/-- The names that the weaker equality compares are those that the directive lists, and `name`,
which comes last. -/
theorem comparableFields_of_interpret {directive : Attribute} {declaration : Declaration}
    {schema : Schema} (h : interpret directive declaration = .ok schema) :
    schema.comparableFields = schema.comparableFields.dropLast ++ [Schema.comparedName] := by
  obtain ⟨content, _, rfl⟩ := interpret_eq_ok_iff.1 h
  rw [Content.schema, List.dropLast_concat]

/-- **Equality, hash and weaker equality fit together.** The equality holds just when two values
agree on every coding field, and then their hashes are fed the same. If all names that the directive
lists for the weaker equality are names of coding fields, that follows from the equality. And no
other directive that lists the same names, in whatever order and however often, makes a weaker
equality that says anything else. -/
theorem coherent_of_interpret {V : Type} [DecidableEq V] {directive : Attribute}
    {declaration : Declaration} {schema : Schema}
    (h : interpret directive declaration = .ok schema) :
    (∀ left right : Text → V, schema.equal? left right =
      some (decide (∀ name ∈ schema.codingNames, left name = right name))) ∧
    (∀ value : Text → V, schema.hashSequence? value = some (schema.codingNames.map value)) ∧
    (∀ left right : Text → V, schema.equal? left right = some true →
      schema.hashSequence? left = schema.hashSequence? right) ∧
    ((∀ name ∈ schema.comparableFields.dropLast, name ∈ schema.codingNames) →
      ∀ left right : Text → V,
        schema.propertiesEqual? left right =
            some (decide (∀ name ∈ schema.comparableFields, left name = right name)) ∧
          (schema.equal? left right = some true →
            schema.propertiesEqual? left right = some true)) ∧
    (∀ (directive' : Attribute) (declaration' : Declaration) (schema' : Schema),
      interpret directive' declaration' = .ok schema' →
      (∀ name, name ∈ schema'.comparableFields ↔ name ∈ schema.comparableFields) →
      ∀ left right : Text → V,
        schema'.propertiesEqual? left right = schema.propertiesEqual? left right) := by
  have hmade := Schema.wellMade_of_interpret h
  have hfields := comparableFields_of_interpret h
  have hne : schema.comparableFields ≠ [] := by
    rw [hfields]
    exact List.concat_ne_nil _ _
  refine ⟨fun left right => hmade.equal?_eq, hmade.hashSequence?_eq, ?_, ?_, ?_⟩
  · intro left right hequal
    rw [hmade.equal?_eq] at hequal
    have hagree := of_decide_eq_true (Option.some.inj hequal)
    rw [hmade.hashSequence?_eq, hmade.hashSequence?_eq, List.map_congr_left hagree]
  · intro hlisted left right
    apply hmade.propertiesEqual?_of_equal? hne
    intro name hname
    rw [hfields] at hname
    rcases List.mem_append.1 hname with hname | hname
    · exact hlisted name hname
    · rw [List.mem_singleton.1 hname]
      exact hmade.mem_codingNames_of_implicit (by decide)
  · intro _ _ _ _ hsame left right
    exact Schema.propertiesEqual?_congr hne hsame

/-- Two books that differ in their identity alone, and two that differ in their names. -/
theorem coherent_comparing :
    ∃ schema schema', interpret
          (Content.fieldless ["createdAt", "name", "createdAt"] []).directive ⟨.classType, "Book"⟩ =
            .ok schema ∧
        interpret (Content.fieldless ["createdAt"] []).directive ⟨.classType, "Book"⟩ =
            .ok schema' ∧
      schema.equal? (fun _ => 0) (fun name => if name = "id" then 1 else 0) = some false ∧
      schema.propertiesEqual? (fun _ => 0) (fun name => if name = "id" then 1 else 0) = some true ∧
      schema'.propertiesEqual? (fun _ => 0) (fun name => if name = "name" then 1 else 0) =
        some false := by
  have hbook := interpret_fieldless ["createdAt", "name", "createdAt"] [] ⟨.classType, "Book"⟩
    (by decide)
  have hother := interpret_fieldless ["createdAt"] [] ⟨.classType, "Book"⟩ (by decide)
  obtain ⟨hequal, _, _, hlisted, hset⟩ := coherent_of_interpret (V := Nat) hbook
  have hvalue := hlisted (by decide)
  have hnames : ∀ name : Text, name ∈ (["createdAt", "name"] : List Text) ↔
      name ∈ (["createdAt", "name", "createdAt", "name"] : List Text) := by
    intro name
    simp only [List.mem_cons]
    grind
  refine ⟨_, _, hbook, hother, ?_, ?_, ?_⟩
  · rw [hequal]
    decide
  · rw [(hvalue _ _).1]
    decide
  · rw [hset _ _ _ hother hnames, (hvalue _ _).1]
    decide

end Directive

end MemberSynthesis
