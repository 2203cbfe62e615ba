import MemberSynthesis.Member.Basic

/-!
# Layout

The members as they stand in the body of a type: every line moved right, and an empty line between
each two members.
-/

set_option autoImplicit false

namespace MemberSynthesis

namespace Member

/-- The lines of a member, moved right by an indent. -/
def indentedLines (indent : Text) (member : Member) : List Text :=
  member.text.lines.map (Text.indented indent)

/-- The members one below the other. -/
def layOut (indent : Text) (members : List Member) : Text :=
  Text.stacked (([[]] : List Text).intercalate (members.map (indentedLines indent)))

end Member

end MemberSynthesis
