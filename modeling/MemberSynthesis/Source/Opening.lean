import MemberSynthesis.Source.Fault

/-!
# Brackets and strings in a text

One machine decides what belongs together in a source text. It reads the code points in order and
keeps the stack of what it has **entered and not yet left**: brackets, string literals, and the
brackets of the interpolations inside string literals. A bracket inside a string counts only within
an interpolation, and a quote there opens a string of its own, to any depth.

The first **unit** of a text is a single code point, a string literal or a bracketed group: what
stands at its start, up to where the stack is empty again. `unitEnd` finds it.
-/

set_option autoImplicit false

namespace MemberSynthesis

/-- Something entered and not yet left, with the offset at which it opened. -/
inductive Opening where
  | bracket (kind : Bracket) (offset : Nat)
  /-- A string literal. -/
  | string (offset : Nat)
  /-- A string literal in which a backslash waits for the code point that it escapes. -/
  | escape (offset : Nat)
  deriving DecidableEq, Repr

namespace Opening

/-- What is left entered when a bracket is closed, which has to match the innermost opening. -/
def close (closed : Bracket) (offset : Nat) : List Opening → Reading (List Opening)
  | bracket opened _ :: outer =>
    if opened = closed then .ok outer else .error ⟨.unbalanced closed, offset⟩
  | _ => .error ⟨.unbalanced closed, offset⟩

/-- What is entered after the code point `c` outside string literals. A quote opens one, unless two
more quotes follow it in `rest`. -/
def advanceOutside (entered : List Opening) (offset : Nat) (c : CodePoint) (rest : Text) :
    Reading (List Opening) :=
  if c = '"' then
    if (['"', '"'] : Text).isPrefixOf rest then .error ⟨.multilineString, offset⟩
    else .ok (string offset :: entered)
  else
    match Bracket.ofOpener? c with
    | some opened => .ok (bracket opened offset :: entered)
    | none =>
      match Bracket.ofCloser? c with
      | some closed => close closed offset entered
      | none => .ok entered

/-- What is entered after the code point `c`, given what was entered before it, innermost first. The
text after it is `rest`. -/
def advance (entered : List Opening) (offset : Nat) (c : CodePoint) (rest : Text) :
    Reading (List Opening) :=
  match entered with
  | [] => advanceOutside [] offset c rest
  | bracket opened start :: outer => advanceOutside (bracket opened start :: outer) offset c rest
  | string start :: outer =>
    if c = '\\' then .ok (escape start :: outer)
    else if c = '"' then .ok outer
    else if c = '\n' then .error ⟨.unterminatedString, start⟩
    else .ok (string start :: outer)
  | escape start :: outer =>
    if c = '(' then .ok (bracket .round offset :: string start :: outer)
    else .ok (string start :: outer)

/-- The fault of a text that ends inside all this. It is laid on the string around the end of the
text, or else on the outermost bracket that was opened since the last string. Where nothing is
entered there is nothing to lay it on: a unit was asked for at the end of the text. -/
def unfinished : List Opening → ReadFault
  | [] => ⟨.pastEnd, 0⟩
  | string start :: _ => ⟨.unterminatedString, start⟩
  | escape start :: _ => ⟨.unterminatedString, start⟩
  | bracket kind start :: outer =>
    match outer with
    | bracket _ _ :: _ => unfinished outer
    | _ => ⟨.unclosed kind, start⟩

/-- The offset of the last code point of a unit that is being read, `entered` being what is open
before the text. -/
def unitEndFrom (entered : List Opening) (offset : Nat) : Text → Reading Nat
  | [] => .error (unfinished entered)
  | c :: rest => do
    let still ← advance entered offset c rest
    if still.isEmpty then return offset else unitEndFrom still (offset + 1) rest

end Opening

namespace Text

/-- The offset of the last code point of the first unit of a text. -/
def unitEnd (text : Text) : Reading Nat := Opening.unitEndFrom [] 0 text

/-- The text between the first and the last code point, if the whole text is one unit. -/
def inside? (text : Text) : Reading (Option Text) := do
  let last ← unitEnd text
  return if last + 1 = text.length then some (text.drop 1).dropLast else none

theorem length_of_inside? {text inner : Text} (h : inside? text = .ok (some inner)) :
    inner.length < text.length := by
  obtain ⟨last, _, hl⟩ := Reading.bind_eq_ok.1 h
  by_cases hlen : last + 1 = text.length
  · simp only [hlen, if_true, pure, Except.pure, Except.ok.injEq, Option.some.injEq] at hl
    subst hl
    simp only [List.length_dropLast, List.length_drop]
    omega
  · simp [hlen, pure, Except.pure] at hl

end Text

end MemberSynthesis
