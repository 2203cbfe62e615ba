import MemberSynthesis.Text.Basic

/-!
# Problems

What is wrong with loosely typed data: a cause, and the path to the value that it concerns. A check
goes on after a problem, so that all of them come to light together (`Checked.both`, `Checked.all`),
in the order of the parts.

That is the difference to a reading of source text, which stops at its first fault. A check
therefore is no monad: what one part comes to has no influence on whether another one is checked,
and two parts are put together by `both`. A part does not know where it stands, either. Whoever
takes it out of a record or a list adds the step that leads to it (`Checked.under`), and a path
grows from its end.

Each cause has a short name and a wording, and those of a cause without data are fixed texts. What
passes a check is unaffected by all this (`under_eq_ok`, `both_eq_ok`, `all_eq_ok`).
-/

set_option autoImplicit false

namespace MemberSynthesis

/-- A step into a value: to what is under a key of a record, or to an item of a list. -/
inductive PathStep where
  | key (name : Text)
  | item (index : Nat)
  deriving DecidableEq, Repr

/-- Why a value is refused. The causes that name what was expected carry it along for the
message. -/
inductive ProblemCause where
  /-- A required value is absent. -/
  | missing
  | notText
  | emptyText
  | notList
  | notBoolean
  /-- The value could stand for a truth value, and it is not told which. -/
  | unclearBoolean
  /-- The value is no record of the kind that is expected, which has a name. -/
  | notRecord (expected : Text)
  /-- The value is no record, so that nothing tells the alternatives apart. -/
  | notTagged
  /-- The value is not one of the words that are expected. -/
  | unknownWord (expected : List Text)
  /-- The word that tells the alternatives apart is absent. -/
  | noTag
  /-- The word that tells the alternatives apart is none of those expected. -/
  | unknownTag (found : Text) (expected : List Text)
  /-- The value breaks a rule of its type. -/
  | invalid (message : Text)
  deriving DecidableEq, Repr

namespace ProblemCause

/-- The short name of a cause, by which a program tells causes apart. -/
def code : ProblemCause → Text
  | missing => "missing"
  | notText => "string_type"
  | emptyText => "string_too_short"
  | notList => "tuple_type"
  | notBoolean => "bool_type"
  | unclearBoolean => "bool_parsing"
  | notRecord _ => "model_type"
  | notTagged => "model_attributes_type"
  | unknownWord _ => "enum"
  | noTag => "union_tag_not_found"
  | unknownTag _ _ => "union_tag_invalid"
  | invalid _ => "value_error"

/-- A word between single quotes. -/
def inQuotes (word : Text) : Text := "'" ++ word ++ "'"

/-- Alternatives in a row, with commas between them and an `or` before the last. -/
def alternatives : List Text → Text
  | [] => []
  | [only] => only
  | [first, last] => first ++ " or " ++ last
  | first :: second :: third :: more => first ++ ", " ++ alternatives (second :: third :: more)

/-- The wording of a cause, by which a reader does. -/
def message : ProblemCause → Text
  | missing => "Field required"
  | notText => "Input should be a valid string"
  | emptyText => "String should have at least 1 character"
  | notList => "Input should be a valid tuple"
  | notBoolean => "Input should be a valid boolean"
  | unclearBoolean => "Input should be a valid boolean, unable to interpret input"
  | notRecord expected => "Input should be a valid dictionary or instance of " ++ expected
  | notTagged => "Input should be a valid dictionary or object to extract fields from"
  | unknownWord expected => "Input should be " ++ alternatives (expected.map inQuotes)
  | noTag => "Unable to extract tag using discriminator 'kind'"
  | unknownTag found expected =>
    "Input tag " ++ inQuotes found ++
      " found using 'kind' does not match any of the expected tags: " ++
      Text.joined ", " (expected.map inQuotes)
  | invalid message => "Value error, " ++ message

end ProblemCause

/-- A cause and the path to the value it concerns, from the outermost value to the innermost. -/
structure Problem where
  path : List PathStep
  cause : ProblemCause
  deriving DecidableEq, Repr

/-- What comes of checking a value: the value with its type, or all its problems. -/
abbrev Checked (α : Type) := Except (List Problem) α

namespace Checked

/-- A value with a problem of its own, which has no path yet. -/
def refuse {α : Type} (cause : ProblemCause) : Checked α := .error [⟨[], cause⟩]

/-- The check of a part as a check of the whole: the step that leads to the part is put in front of
the path of each of its problems. -/
def under {α : Type} (step : PathStep) : Checked α → Checked α
  | .ok a => .ok a
  | .error problems => .error (problems.map fun p => { p with path := step :: p.path })

/-- Two checks, each of which is made whatever comes of the other. Their problems stand in the same
order. -/
def both {α β : Type} : Checked α → Checked β → Checked (α × β)
  | .ok a, .ok b => .ok (a, b)
  | .ok _, .error problems => .error problems
  | .error problems, .ok _ => .error problems
  | .error problems, .error more => .error (problems ++ more)

/-- All the checks of a list, made one and all, with the problems of the earlier items first. -/
def all {α : Type} : List (Checked α) → Checked (List α)
  | [] => .ok []
  | first :: more => (both first (all more)).map fun (a, as) => a :: as

/-! ## What passes -/

theorem under_eq_ok {α : Type} {step : PathStep} {check : Checked α} {a : α} :
    under step check = .ok a ↔ check = .ok a := by
  cases check <;> simp [under]

/-- Two checks pass together just when each passes. -/
theorem both_eq_ok {α β : Type} {first : Checked α} {second : Checked β} {a : α} {b : β} :
    both first second = .ok (a, b) ↔ first = .ok a ∧ second = .ok b := by
  cases first <;> cases second <;> simp [both]

/-- A list passes just when every item does. -/
theorem all_eq_ok {α : Type} {checks : List (Checked α)} {values : List α} :
    all checks = .ok values ↔ checks = values.map .ok := by
  induction checks generalizing values with
  | nil => cases values <;> simp [all]
  | cons first more ih =>
    cases first with
    | error problems => cases h : all more <;> cases values <;> simp [all, both, Except.map, h]
    | ok a =>
      cases values with
      | nil => cases h : all more <;> simp [all, both, Except.map, h]
      | cons b values =>
        rw [List.map_cons, List.cons.injEq, ← ih]
        cases h : all more <;> simp [all, both, Except.map, h]

end Checked

end MemberSynthesis
