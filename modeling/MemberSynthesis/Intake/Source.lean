import MemberSynthesis.Intake.Shape
import MemberSynthesis.Intake.Shown
import MemberSynthesis.Source.Snippet

/-!
# Intake of attributes and declarations

Expressions arrive as records with a word under `kind` that tells which of the three forms it is;
the path to a problem inside an expression goes through that word. All but `kind` may be left out: a
string without a value is empty, an array without elements has none, and any other expression is the
empty text.

The word under `kind` decides which keys are looked at, so it is checked first and alone. Once it is
known, the check goes on as that of any record, with all problems at once. Elements of arrays are
expressions themselves, and the recursion is on the size of the data (`Datum.sizeOf_of_get?`),
because an element is only reached by looking up a key.
-/

set_option autoImplicit false

namespace MemberSynthesis

open Checked Shape

/-- The forms of an expression, as they are told apart before anything else is known of it. -/
inductive ExpressionForm where
  | stringForm
  | arrayForm
  | rawForm
  deriving DecidableEq, Repr

/-- The forms are known by words of their own. -/
instance : Vocabulary ExpressionForm where
  word
    | .stringForm => "string"
    | .arrayForm => "array"
    | .rawForm => "raw"
  all := [.stringForm, .arrayForm, .rawForm]
  mem_all form := by cases form <;> decide
  nodup_words := by decide +kernel

/-- Checks the value under `kind`, which tells the form of an expression. -/
def ExpressionForm.ofDatum : Datum → Checked ExpressionForm
  | .record entries =>
    match (Datum.record entries).get? "kind" with
    | none => refuse .noTag
    | some tag =>
      match (tag.word? : Option ExpressionForm) with
      | some form => .ok form
      | none => refuse (.unknownTag tag.bare (Vocabulary.words ExpressionForm))
  | _ => refuse .notTagged

namespace Expression

/-- Checks an expression, by the form that it says it has. -/
def ofDatum (datum : Datum) : Checked Expression :=
  match ExpressionForm.ofDatum datum with
  | .error problems => .error problems
  | .ok form =>
    under (.key (Vocabulary.word form)) <|
      match form with
      | .stringForm =>
        (both (optional datum "value" [] text)
          (optional datum "interpolated" false boolean)).map fun (value, interpolated) =>
            string value interpolated
      | .arrayForm =>
        match helements : datum.get? "elements" with
        | none => .ok (array [])
        | some (.list items) =>
          under (.key "elements") <|
            (all (items.attach.zipIdx.map fun (⟨item, hitem⟩, index) =>
              have : sizeOf item < sizeOf datum := by
                have h₁ := Datum.sizeOf_of_get? helements
                have h₂ := List.sizeOf_lt_of_mem hitem
                simp only [Datum.list.sizeOf_spec] at h₁
                omega
              under (.item index) (ofDatum item))).map array
        | some _ => under (.key "elements") (refuse .notList)
      | .rawForm => (optional datum "text" [] text).map raw
termination_by sizeOf datum

end Expression

/-- Checks an argument, of which only the expression has to be there. -/
def Argument.ofDatum : Datum → Checked Argument := record "LabeledArgument" fun datum =>
  (both (optional datum "label" none textOrNull)
    (required datum "expression" Expression.ofDatum)).map fun (label, expression) =>
      ⟨label, expression⟩

/-- Checks an attribute, which may have no arguments. -/
def Attribute.ofDatum : Datum → Checked Attribute := record "Attribute" fun datum =>
  (both (required datum "name" text)
    (optional datum "arguments" [] (list Argument.ofDatum))).map fun (name, arguments) =>
      ⟨name, arguments⟩

/-- Checks a declaration: the keyword of its kind, and any text for its name. -/
def Declaration.ofDatum : Datum → Checked Declaration := record "Declaration" fun datum =>
  (both (required datum "kind" word)
    (required datum "name" text)).map fun (kind, name) => ⟨kind, name⟩

end MemberSynthesis
