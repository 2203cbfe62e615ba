import MemberSynthesis.Intake.Shown
import MemberSynthesis.Schema.ValueKind

/-!
# Intake of value kinds

A value kind on its own is asked for by its word. There is no path to a problem then, so the message
is all there is, and it shows the value that was given instead.
-/

set_option autoImplicit false

namespace MemberSynthesis

namespace ValueKind

/-- Checks a value kind. -/
def ofDatum (datum : Datum) : Except Text ValueKind :=
  match (datum.word? : Option ValueKind) with
  | some kind => .ok kind
  | none => .error (datum.shown ++ " is not a valid ValueKind")

end ValueKind

end MemberSynthesis
