import MemberSynthesis.Intake.Shape
import MemberSynthesis.Member.Basic

/-!
# Intake of members

Members that were generated earlier, to be rendered. They are checked one after the other, and the
first one with problems ends the check.
-/

set_option autoImplicit false

namespace MemberSynthesis

open Checked Shape

namespace Member

/-- Checks a member. -/
def ofDatum : Datum → Checked Member := record "Fragment" fun datum =>
  (both (required datum "kind" word)
    (both (required datum "name" Shape.text) (required datum "text" Shape.text))).map
    fun (kind, name, text) => ⟨kind, name, text⟩

/-- Checks members up to the first with problems. -/
def listOfData (data : List Datum) : Checked (List Member) := data.mapM ofDatum

end Member

end MemberSynthesis
