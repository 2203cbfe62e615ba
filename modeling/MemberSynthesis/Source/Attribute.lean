import MemberSynthesis.Source.Argument

/-!
# Attributes

An attribute is an at sign, a name and, possibly, an argument list in round brackets. The attribute
that is asked for is found by its name alone, wherever it stands (`findMention?`); the attributes
between it and the declaration are passed over (`skip`).

The search is one for a word: the name may stand in a comment or in a string, and it is still found
there. What comes after it is read with brackets and strings in mind. So the first mention decides,
and a text in which the first mention is no attribute can not be read, even if an attribute follows
later.

Attributes that are passed over may have any name and any arguments, as far as their brackets match.
The recursion is on the length of the text: what follows a name is shorter (`length_of_splitName?`).
-/

set_option autoImplicit false

namespace MemberSynthesis

/-- An attribute of a declaration: its name and its arguments, none if it has no list. -/
structure Attribute where
  name : Text
  arguments : List Argument
  deriving DecidableEq, Repr

namespace Attribute

/-- Whether a word boundary lies between two texts: just one of the code points that meet there is a
word character. -/
def meetsAtBoundary (before after : Text) : Bool :=
  before.getLast?.any CodePoint.isWord != after.head?.any CodePoint.isWord

/-- Whether the text starts with a mention of the attribute, which ends at a word boundary. -/
def isMention (name text : Text) : Bool :=
  let mention : Text := '@' :: name
  mention.isPrefixOf text && meetsAtBoundary mention (text.drop mention.length)

/-- The offset of the first mention of an attribute, strings and brackets being no obstacle. -/
def findMention? (name : Text) : Text → Option Nat
  | [] => none
  | c :: rest =>
    if isMention name (c :: rest) then some 0
    else (findMention? name rest).map (· + 1)

/-- The name of the attribute that a text starts with, which is an identifier, and the text after
it. -/
def splitName? : Text → Option (Text × Text)
  | [] => none
  | c :: rest => if c = '@' then Identifier.split? rest else none

theorem length_of_splitName? {text name rest : Text} (h : splitName? text = some (name, rest)) :
    rest.length < text.length := by
  cases text with
  | nil => cases h
  | cons c more =>
    simp only [splitName?] at h
    split at h
    · have := (Identifier.append_of_split? h).1
      subst this
      simp only [List.length_cons, List.length_append]
      omega
    · cases h

/-- The number of code points that the argument list at the start of a text takes, if there is one.
What is in it is not read. -/
def argumentListLength (text : Text) : Reading Nat :=
  if text.head? = some (CodePoint.scalar '(') then do
    let close ← Text.unitEnd text
    return close + 1
  else return 0

/-- The number of code points that the blanks and attributes at the start of a text take. It stops
in front of the first code point that starts neither. -/
def skip (text : Text) : Reading Nat :=
  match hname : splitName? text.trimStart with
  | none => .ok text.leadingBlanks
  | some (_, rest) => do
    have : rest.trimStart.length < text.length :=
      Nat.lt_of_le_of_lt (Text.length_trimStart_le rest)
        (Nat.lt_of_lt_of_le (length_of_splitName? hname) (Text.length_trimStart_le text))
    -- The blanks before the attribute, the attribute's name, and the blanks after it.
    let gap := text.length - rest.length + rest.leadingBlanks
    let arguments ← Reading.moved gap (argumentListLength rest.trimStart)
    let more ← Reading.moved (gap + arguments) (skip (rest.trimStart.drop arguments))
    return gap + arguments + more
termination_by text.length

end Attribute

end MemberSynthesis
