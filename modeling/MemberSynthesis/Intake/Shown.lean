import MemberSynthesis.Decimal.Written
import MemberSynthesis.Intake.Datum
import MemberSynthesis.Text.Quoted

/-!
# Shown data

How a message shows a loosely typed value of any form. Texts inside lists and records are quoted, so
that the parts of a value can be told apart. A text on its own may also be shown bare.
-/

set_option autoImplicit false

namespace MemberSynthesis

namespace Datum

mutual

/-- A value as messages show it. -/
def shown : Datum → Text
  | null => "None"
  | boolean true => "True"
  | boolean false => "False"
  | integer value => Text.ofInt value
  | real value => Text.ofFloat value
  | text value => value.quoted
  | list items => "[" ++ Text.joined ", " (shownItems items) ++ "]"
  | record entries => "\x7b" ++ Text.joined ", " (shownEntries entries) ++ "\x7d"

/-- The items of a list, each as it is shown. -/
def shownItems : List Datum → List Text
  | [] => []
  | item :: more => shown item :: shownItems more

/-- The entries of a record, each with its key before it. -/
def shownEntries : List (Text × Datum) → List Text
  | [] => []
  | (key, value) :: more => (key.quoted ++ ": " ++ shown value) :: shownEntries more

end

/-- A value as messages show it where they have quotes of their own around it. -/
def bare : Datum → Text
  | text value => value
  | other => other.shown

end Datum

end MemberSynthesis
