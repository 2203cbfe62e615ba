import MemberSynthesis.Intake.Datum
import MemberSynthesis.Intake.Problem
import MemberSynthesis.Schema.Field

/-!
# Shapes

The checks that the checks of whole records are made of: what a text is, what a list is, and what it
means that a key is required or may be left out.

Two things are lenient, and deliberately so. A truth value may arrive as a word or as a number, in a
few spellings and in letters of either case; and a key may be there that no check asks for, which is
ignored. Nothing else is converted: a number is no text, and a text is no list of its code points. A
key that is there with no value in it is there, and its value is checked.
-/

set_option autoImplicit false

namespace MemberSynthesis

namespace Shape

open Checked

/-- A text, and not what could be written as one. -/
def text : Datum → Checked Text
  | .text value => .ok value
  | _ => refuse .notText

/-- A text or nothing, where a record says so expressly. -/
def textOrNull : Datum → Checked (Option Text)
  | .null => .ok none
  | .text value => .ok (some value)
  | _ => refuse .notText

/-- The words for true, in small letters. -/
def trueWords : List Text := ["1", "t", "y", "on", "yes", "true"]

/-- The words for false, in small letters. -/
def falseWords : List Text := ["0", "f", "n", "no", "off", "false"]

/-- A word for a truth value, in letters of either case. -/
def booleanWord (word : Text) : Checked Bool :=
  let small := word.map CodePoint.toSmall
  if small ∈ trueWords then .ok true
  else if small ∈ falseWords then .ok false
  else refuse .unclearBoolean

/-- One for true, zero for false. Integers that do not fit into 64 bits are not considered. -/
def booleanInteger (value : Int) : Checked Bool :=
  if value = 0 then .ok false
  else if value = 1 then .ok true
  else if -9223372036854775808 ≤ value ∧ value < 9223372036854775808 then refuse .unclearBoolean
  else refuse .notBoolean

/-- A floating-point number in the place of an integer, which it has to be: one with a fraction
stands for no truth value, whatever its size. -/
def booleanReal (value : Float) : Checked Bool :=
  if value == 0 then .ok false
  else if value == 1 then .ok true
  else if value.floor == value ∧ value.abs < 9223372036854775808 then refuse .unclearBoolean
  else refuse .notBoolean

/-- A truth value, or a word or a number that stands for one. What could stand for one and does not
is told apart from what never could. -/
def boolean : Datum → Checked Bool
  | .boolean value => .ok value
  | .text value => booleanWord value
  | .integer value => booleanInteger value
  | .real value => booleanReal value
  | .null | .list _ | .record _ => refuse .notBoolean

/-- A word of a vocabulary. The refusal lists all its words. -/
def word {α : Type} [Vocabulary α] (datum : Datum) : Checked α :=
  match (datum.word? : Option α) with
  | some a => .ok a
  | none => refuse (.unknownWord (Vocabulary.words α))

/-- A list whose items each pass a check. The items are numbered from zero, and all of them are
checked. -/
def list {α : Type} (item : Datum → Checked α) : Datum → Checked (List α)
  | .list items => all (items.zipIdx.map fun (datum, index) => under (.item index) (item datum))
  | _ => refuse .notList

/-- The value under a key that has to be there. Its absence is a problem at the place where it
should be. -/
def required {α : Type} (datum : Datum) (key : Text) (check : Datum → Checked α) : Checked α :=
  under (.key key) <|
    match datum.get? key with
    | none => refuse .missing
    | some value => check value

/-- The value under a key, or else a value by default, which is not checked. -/
def optional {α : Type} (datum : Datum) (key : Text) (default : α) (check : Datum → Checked α) :
    Checked α :=
  match datum.get? key with
  | none => .ok default
  | some value => under (.key key) (check value)

/-- A record, checked key by key. Messages know records of its kind by `name`, and anything but a
record is refused before a key is looked at. -/
def record {α : Type} (name : Text) (check : Datum → Checked α) : Datum → Checked α
  | .record entries => check (.record entries)
  | _ => refuse (.notRecord name)

/-- The problem that a fault of a field is. -/
def ofFieldFault : FieldFault → ProblemCause
  | .emptyName | .emptyTypeName => .emptyText
  | .markedTypeName typeName => .invalid (FieldFault.markedMessage typeName)

/-- A text in which a part of a field is free of faults. That it is a text comes first. -/
def faultless (fault? : Text → Option FieldFault) (datum : Datum) : Checked Text := do
  let value ← text datum
  match fault? value with
  | none => return value
  | some fault => refuse (ofFieldFault fault)

end Shape

end MemberSynthesis
