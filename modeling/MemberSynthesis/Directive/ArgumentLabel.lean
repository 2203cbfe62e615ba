import MemberSynthesis.Text.Vocabulary

/-!
# The labels of the directive

The directive takes three arguments and knows them by their labels alone, whatever order they stand
in. As a vocabulary the labels have an order of their own, which is that of the messages: it is also
the order in which the arguments are looked at.
-/

set_option autoImplicit false

namespace MemberSynthesis

/-- The name of the directive. -/
def directiveName : Text := "UsefulClass"

/-- The label of an argument of the directive. Each label has one argument, no less and no more. -/
inductive ArgumentLabel where
  /-- The names of the fields that the weaker equality compares. -/
  | comparableMembers
  /-- The descriptors of the fields that take part in coding. -/
  | codingMembers
  /-- Statements for the end of every initializer. -/
  | uselessInitializations
  deriving DecidableEq, Repr

namespace ArgumentLabel

/-- The label as it is written before the colon. -/
def word : ArgumentLabel → Text
  | comparableMembers => "comparableMembers"
  | codingMembers => "codingMembers"
  | uselessInitializations => "uselessInitializations"

/-- The labels are known by their spelling. -/
instance : Vocabulary ArgumentLabel where
  word := word
  all := [comparableMembers, codingMembers, uselessInitializations]
  mem_all label := by cases label <;> decide
  nodup_words := by decide +kernel

/-- All labels in a row, as messages list them. -/
def listed : Text := Text.joined ", " (Vocabulary.words ArgumentLabel)

end ArgumentLabel

end MemberSynthesis
