import Mathlib.Data.List.Basic
import MemberSynthesis.Member.Serialization
import MemberSynthesis.Proofs.Directive.Descriptor

/-!
# Reading the statements of the coding methods

A line of the encoding or of the decoding initializer moves one value between a member and a key.
The readers below take such a line for what it says in the language it is written in; they know
nothing of the fields it was made from. **A line is read as a transfer just when it is written as
one** (`ofEncodeLine?_eq_some_iff`, `ofDecodeLine?_eq_some_iff`), so nothing else passes for a
statement.

A decoded line holds the text of a type, which may be long and hold nearly anything. The member is
therefore read from the start of the line and the key from its end, with the type left in between.
The type has no say in what the line does; that it is the right one for the member is not a question
of this module.

Whether a value may be missing shows in the method that is called, and each direction has two. A
line that calls another method is no transfer.
-/

set_option autoImplicit false

namespace MemberSynthesis

/-- A statement that moves a value between a member and what stands under a key. -/
structure Transfer where
  member : Text
  key : Text
  /-- Whether the value may be missing. -/
  optional : Bool
  deriving DecidableEq, Repr

namespace Transfer

/-- Whether a method allows for a missing value, of the two methods that move values. Of any other
method nothing is known. -/
def optional? (strict lenient method : Text) : Option Bool :=
  if method = strict then some false
  else if method = lenient then some true
  else none

/-- A line such as `try container.encode(name, forKey: .name)`. -/
def ofEncodeLine? (line : Text) : Option Transfer := do
  let rest ← ("try container." : Text).isPrefixOf? line
  let (method, rest) ← Identifier.split? rest
  let optional ← optional? "encode" "encodeIfPresent" method
  let rest ← ("(" : Text).isPrefixOf? rest
  let (member, rest) ← Identifier.split? rest
  let rest ← (", forKey: ." : Text).isPrefixOf? rest
  let (key, rest) ← Identifier.split? rest
  if rest = ")" then some ⟨member, key, optional⟩ else none

/-- A line such as `name = try container.decode(String.self, forKey: .name)`. -/
def ofDecodeLine? (line : Text) : Option Transfer := do
  let (member, rest) ← Identifier.split? line
  let rest ← (" = try container." : Text).isPrefixOf? rest
  let (method, rest) ← Identifier.split? rest
  let optional ← optional? "decode" "decodeIfPresent" method
  let rest ← ("(" : Text).isPrefixOf? rest
  let rest ← (")" : Text).isSuffixOf? rest
  let (rest, key) ← Identifier.splitEnd? rest
  let _ ← (".self, forKey: ." : Text).isSuffixOf? rest
  some ⟨member, key, optional⟩

/-! ## What the readers accept -/

/-- The method that a line calls. -/
def method (strict lenient : Text) (optional : Bool) : Text := if optional then lenient else strict

theorem optional?_eq_some_iff {strict lenient name : Text} {optional : Bool}
    (hne : strict ≠ lenient) :
    optional? strict lenient name = some optional ↔ name = method strict lenient optional := by
  unfold optional? method
  cases optional with
  | false =>
    by_cases h : name = strict
    · simp [h]
    · simp [h]
  | true =>
    by_cases h : name = strict
    · simp [h, hne]
    · simp [h]

theorem isIdentifier_method {strict lenient : Text} (hstrict : strict.isIdentifier)
    (hlenient : lenient.isIdentifier) (optional : Bool) :
    (method strict lenient optional).isIdentifier := by
  cases optional
  · exact hstrict
  · exact hlenient

/-- **Just the lines that encode a member under a key are read so.** The member and the key may
differ; that they do not is a property of the lines of fields. -/
theorem ofEncodeLine?_eq_some_iff {line : Text} {transfer : Transfer} :
    ofEncodeLine? line = some transfer ↔
      transfer.member.isIdentifier ∧ transfer.key.isIdentifier ∧
        line = "try container." ++ method "encode" "encodeIfPresent" transfer.optional ++ "(" ++
          transfer.member ++ ", forKey: ." ++ transfer.key ++ ")" := by
  obtain ⟨member, key, optional⟩ := transfer
  have hne : ("encode" : Text) ≠ "encodeIfPresent" := by decide
  constructor
  · intro h
    simp only [ofEncodeLine?, Option.bind_eq_bind, Option.bind_eq_some_iff, Prod.exists,
      List.isPrefixOf?_eq_some_iff_append_eq, Identifier.split?_eq_some_iff,
      optional?_eq_some_iff hne] at h
    obtain ⟨_, rfl, name, _, ⟨_, _, rfl⟩, _, hname, _, rfl, _, _, ⟨hmember, _, rfl⟩, _, rfl, _, _,
      ⟨hkey, _, rfl⟩, h⟩ := h
    split at h
    · rename_i hlast
      cases h
      refine ⟨hmember, hkey, ?_⟩
      rw [hname, hlast]
      simp only [List.append_assoc]
    · cases h
  · rintro ⟨hmember, hkey, rfl⟩
    -- Read from the left, each part ends where a sign follows that is no word character.
    have hmethod : (method "encode" "encodeIfPresent" optional).isIdentifier :=
      isIdentifier_method (by decide) (by decide) optional
    simp only [ofEncodeLine?, Option.bind_eq_bind, Option.bind_eq_some_iff, Prod.exists,
      List.isPrefixOf?_eq_some_iff_append_eq, Identifier.split?_eq_some_iff,
      optional?_eq_some_iff hne, List.append_assoc]
    exact ⟨_, rfl, _, _, ⟨hmethod, by exact rfl, rfl⟩, _, rfl, _, rfl, _, _,
      ⟨hmember, by exact rfl, rfl⟩, _, rfl, _, _, ⟨hkey, by exact rfl, rfl⟩, if_pos rfl⟩

/-- **Just the lines that decode a value of some type from a key are read so**, with any text in the
place of the type. -/
theorem ofDecodeLine?_eq_some_iff {line : Text} {transfer : Transfer} :
    ofDecodeLine? line = some transfer ↔
      transfer.member.isIdentifier ∧ transfer.key.isIdentifier ∧
        ∃ typeName : Text, line = transfer.member ++ " = try container." ++
          method "decode" "decodeIfPresent" transfer.optional ++ "(" ++ typeName ++
          ".self, forKey: ." ++ transfer.key ++ ")" := by
  obtain ⟨member, key, optional⟩ := transfer
  have hne : ("decode" : Text) ≠ "decodeIfPresent" := by decide
  constructor
  · intro h
    simp only [ofDecodeLine?, Option.bind_eq_bind, Option.bind_eq_some_iff, Prod.exists,
      List.isPrefixOf?_eq_some_iff_append_eq, List.isSuffixOf?_eq_some_iff_append_eq,
      Identifier.split?_eq_some_iff, Identifier.splitEnd?_eq_some_iff,
      optional?_eq_some_iff hne, Option.some.injEq, mk.injEq] at h
    obtain ⟨_, _, ⟨hmember, _, rfl⟩, _, rfl, _, _, ⟨_, _, rfl⟩, _, hname, _, rfl, _, rfl, _, _,
      ⟨hkey, _, rfl⟩, typeName, rfl, rfl, rfl, rfl⟩ := h
    refine ⟨hmember, hkey, typeName, ?_⟩
    rw [hname]
    simp only [List.append_assoc]
  · rintro ⟨hmember, hkey, typeName, rfl⟩
    have hmethod : (method "decode" "decodeIfPresent" optional).isIdentifier :=
      isIdentifier_method (by decide) (by decide) optional
    have hbefore : Text.EndsWord (typeName ++ ".self, forKey: ." : Text).reverse := by
      rw [List.reverse_append]
      exact Text.endsWord_cons (by decide)
    -- The start of the line is read from the left, what follows the parenthesis from the right.
    have hline : member ++ " = try container." ++ method "decode" "decodeIfPresent" optional ++
        "(" ++ typeName ++ ".self, forKey: ." ++ key ++ ")" =
        member ++ (" = try container." ++ (method "decode" "decodeIfPresent" optional ++
          ("(" ++ (((typeName ++ ".self, forKey: .") ++ key) ++ ")")))) := by
      simp only [List.append_assoc]
    rw [hline]
    simp only [ofDecodeLine?, Option.bind_eq_bind, Option.bind_eq_some_iff, Prod.exists,
      List.isPrefixOf?_eq_some_iff_append_eq, List.isSuffixOf?_eq_some_iff_append_eq,
      Identifier.split?_eq_some_iff, Identifier.splitEnd?_eq_some_iff,
      optional?_eq_some_iff hne, Option.some.injEq]
    exact ⟨_, _, ⟨hmember, by exact rfl, rfl⟩, _, rfl, _, _, ⟨hmethod, by exact rfl, rfl⟩, _, rfl,
      _, rfl, _, rfl, _, _, ⟨hkey, hbefore, rfl⟩, typeName, rfl, rfl⟩

/-! ## What the lines of a field say -/

/-- The transfer between a field and its own key. -/
def ofField (field : Field) : Transfer := ⟨field.name, field.name, field.nullable⟩

/-- **The line that encodes a field is read as the transfer between the field and its key**, which
allows for a missing value just when the field is optional. -/
theorem ofEncodeLine?_encodeLine {field : Field} (h : field.IsSpelled) :
    ofEncodeLine? (Member.encodeLine field) = some (ofField field) := by
  apply ofEncodeLine?_eq_some_iff.2
  refine ⟨h.name, h.name, ?_⟩
  rfl

theorem ofDecodeLine?_decodeLine {field : Field} (h : field.IsSpelled) :
    ofDecodeLine? (Member.decodeLine field) = some (ofField field) := by
  apply ofDecodeLine?_eq_some_iff.2
  refine ⟨h.name, h.name, field.typeName, ?_⟩
  simp only [Member.decodeLine, ofField, List.append_assoc]
  rfl

end Transfer

/-! ## Each line is one line -/

namespace Member

theorem not_mem_encodeLine {field : Field} (h : field.IsSpelled) :
    CodePoint.scalar '\n' ∉ encodeLine field := by
  have hname := Text.not_mem_of_isIdentifier h.name (c := CodePoint.scalar '\n') (by decide)
  have hmethod : CodePoint.scalar '\n' ∉ encodingMethod field.nullable := by
    cases field.nullable <;> decide
  simp only [encodeLine, List.mem_append, not_or]
  exact ⟨⟨⟨⟨⟨⟨by decide, hmethod⟩, by decide⟩, hname⟩, by decide⟩, hname⟩, by decide⟩

theorem not_mem_decodeLine {field : Field} (h : field.IsSpelled) :
    CodePoint.scalar '\n' ∉ decodeLine field := by
  have hname := Text.not_mem_of_isIdentifier h.name (c := CodePoint.scalar '\n') (by decide)
  have htype := Descriptor.not_mem_of_isType h.typeName (c := CodePoint.scalar '\n') (by decide)
  have hmethod : CodePoint.scalar '\n' ∉ decodingMethod field.nullable := by
    cases field.nullable <;> decide
  simp only [decodeLine, List.mem_append, not_or]
  exact ⟨⟨⟨⟨⟨⟨⟨hname, by decide⟩, hmethod⟩, by decide⟩, htype⟩, by decide⟩, hname⟩, by decide⟩

theorem not_mem_decodingHeader (kind : DeclarationKind) :
    CodePoint.scalar '\n' ∉ decodingHeader kind := by
  rw [decodingHeader]
  split <;> decide

end Member

end MemberSynthesis
