import MemberSynthesis.Proofs.Outcome
import MemberSynthesis.Proofs.Source.Pieces
import MemberSynthesis.Source.Argument

/-!
# Literals

A **literal** is an expression as a program would write it: a string without interpolations, or an
array of literals, to any depth. It is written out as one would type it, with the escapes that a
string needs and a comma and a space between elements, and **it is read as the expression it was
written for** (`readTrimmed_written`), by induction on the literal.

What stands in the way is that a string may be full of brackets, commas and quotes, and that the
text is scanned several times, for the end of a list, for the end of a string, and for the items of
an array. All of these scanners are the same machine, and **one fact about the written form serves
them all**: it is a group wherever it stands (`isGroup_written`). The machine enters it at its first
code point, does not leave it before its last, and leaves it there with what was open before.

The one thing a literal minds is a quote right behind it. An empty string in front of a quote would
be the start of a multi-line string, which is not read at all; so `isGroup_written` asks that no
quote follows. In a list a comma or a bracket does, and nothing is left to ask.
-/

set_option autoImplicit false

namespace MemberSynthesis

/-- A string without interpolations, or an array of literals. Strings and arrays are all that the
arguments of a directive may be. -/
inductive Literal where
  | text (value : Text)
  | list (elements : List Literal)

namespace Literal

/-! ## Writing

The three code points that a string can not hold as they are get an escape each. Any other is
written as it is, whatever Unicode may call it. -/

/-- The code point as it is written in a string literal. A quote would end the string, a backslash
start an escape, and a line feed is not allowed. -/
def escapedPoint (c : CodePoint) : Text :=
  if c = '\\' then ['\\', '\\']
  else if c = '"' then ['\\', '"']
  else if c = '\n' then ['\\', 'n']
  else [c]

/-- The text as it is written between the quotes of a string literal. -/
def escaped (value : Text) : Text := value.flatMap escapedPoint

mutual

/-- The literal as it is written, with quotes or brackets around it. -/
def written : Literal → Text
  | text value => "\"" ++ escaped value ++ "\""
  | list elements => "[" ++ Text.joined ", " (writtenAll elements) ++ "]"

/-- The literals as they are written. -/
def writtenAll : List Literal → List Text
  | [] => []
  | element :: more => written element :: writtenAll more

end

mutual

/-- The expression that the literal is: nothing is lost but the way it was written. -/
def expression : Literal → Expression
  | text value => .string value false
  | list elements => .array (expressions elements)

/-- The expressions that the literals are. -/
def expressions : List Literal → List Expression
  | [] => []
  | element :: more => expression element :: expressions more

end

/-- The mutual recursion is a traversal, and after this lemma nobody has to know that there are two
functions. -/
theorem writtenAll_eq_map (elements : List Literal) :
    writtenAll elements = elements.map written := by
  induction elements with
  | nil => rfl
  | cons element more ih => rw [writtenAll, ih, List.map_cons]

theorem expressions_eq_map (elements : List Literal) :
    expressions elements = elements.map expression := by
  induction elements with
  | nil => rfl
  | cons element more ih => rw [expressions, ih, List.map_cons]

/-- What holds of every string, and of an array when it holds of its elements, holds of every
literal. It is the induction behind all results about literals, since the elements stand in a
list. -/
theorem induction {P : Literal → Prop} (htext : ∀ value, P (text value))
    (hlist : ∀ elements, (∀ element ∈ elements, P element) → P (list elements)) :
    ∀ literal, P literal
  | text value => htext value
  | list elements => hlist elements fun element _ => induction htext hlist element

/-- The first code point of the written form, a quote or a bracket. -/
def opener : Literal → CodePoint
  | text _ => '"'
  | list _ => '['

/-- The last code point of the written form, which is never taken for one of the inside. -/
def closer : Literal → CodePoint
  | text _ => '"'
  | list _ => ']'

/-- The written form without its two ends. -/
def inside : Literal → Text
  | text value => escaped value
  | list elements => Text.joined ", " (elements.map written)

theorem written_eq (literal : Literal) :
    literal.written = literal.opener :: (literal.inside ++ [literal.closer]) := by
  cases literal with
  | text value =>
    rw [written]
    rfl
  | list elements =>
    rw [written, writtenAll_eq_map]
    rfl

theorem isTrimmed_written (literal : Literal) : literal.written.IsTrimmed := by
  constructor
  · refine ⟨literal.opener, _, literal.written_eq, ?_⟩
    cases literal <;> rfl
  · refine ⟨literal.opener :: literal.inside, literal.closer, literal.written_eq, ?_⟩
    cases literal <;> rfl

/-! ## The written form is a group

First a string: each of its code points, as it is written, leaves the scanner in the string. Then an
array: its elements leave the scanner in the bracket, and so do the commas between them. -/

section Scanning

open Opening

variable {rest : Text} {outer : List Opening} {offset start : Nat}

/-- A code point of a string, escaped if it has to be, keeps the scanner in the string. An escape
that is no interpolation ends with its second code point. -/
theorem within_escapedPoint (c : CodePoint) :
    Within rest (string start :: outer) offset (escapedPoint c) (string start :: outer) := by
  have hstep : ∀ {d : CodePoint} {more : Text} {offset : Nat}, d ≠ '(' →
      advance (escape start :: outer) offset d more = .ok (string start :: outer) := by
    intro d more offset hd
    rw [advance, if_neg hd]
  rw [escapedPoint]
  split
  · exact .cons (List.cons_ne_nil _ _) rfl (.cons (List.cons_ne_nil _ _) (hstep (by decide)) .nil)
  · split
    · exact .cons (List.cons_ne_nil _ _) rfl (.cons (List.cons_ne_nil _ _) (hstep (by decide)) .nil)
    · split
      · exact .cons (List.cons_ne_nil _ _) rfl
          (.cons (List.cons_ne_nil _ _) (hstep (by decide)) .nil)
      · rename_i hbackslash hquote hfeed
        -- The code point stands for itself and ends nothing.
        refine .cons (List.cons_ne_nil _ _) ?_ .nil
        rw [advance, if_neg hbackslash, if_neg hquote, if_neg hfeed]

/-- The inside of a string keeps the scanner in the string, code point by code point. -/
theorem within_escaped (value : Text) :
    Within rest (string start :: outer) offset (escaped value) (string start :: outer) := by
  induction value generalizing offset with
  | nil => exact .nil
  | cons c more ih => exact .append (within_escapedPoint c) ih

theorem exists_escapedPoint_eq_cons (c : CodePoint) :
    ∃ first more, escapedPoint c = first :: more ∧ first ≠ '"' := by
  rw [escapedPoint]
  split
  · exact ⟨_, _, rfl, by decide⟩
  · split
    · exact ⟨_, _, rfl, by decide⟩
    · split
      · exact ⟨_, _, rfl, by decide⟩
      · rename_i hquote _
        exact ⟨_, _, rfl, hquote⟩

/-- The opening quote of a string is not taken for the start of a multi-line one. Were the string
empty and a quote to follow it, it would be. -/
theorem isPrefixOf_escaped (value : Text) (hrest : rest.head? ≠ some (CodePoint.scalar '"')) :
    (['"', '"'] : Text).isPrefixOf (escaped value ++ CodePoint.scalar '"' :: rest) = false := by
  cases value with
  | nil =>
    cases rest with
    | nil => rfl
    | cons d more =>
      have hd : CodePoint.scalar '"' ≠ d := fun heq => hrest (by rw [← heq]; rfl)
      show (CodePoint.scalar '"' == CodePoint.scalar '"' &&
        (CodePoint.scalar '"' == d && true)) = false
      simp [hd]
  | cons c more =>
    obtain ⟨first, tail, hfirst, hne⟩ := exists_escapedPoint_eq_cons c
    rw [escaped, List.flatMap_cons, hfirst]
    simp [List.isPrefixOf, Ne.symm hne]

/-- A string is a group. The scanner enters it with its own offset, and leaves it at the closing
quote. -/
theorem isGroup_text (value : Text) (houter : IsOutside outer)
    (hrest : rest.head? ≠ some (CodePoint.scalar '"')) :
    IsGroup rest outer offset '"' (escaped value) '"' := by
  refine ⟨string offset, ?_, within_escaped value, rfl⟩
  rw [advance_of_isOutside houter, advanceOutside, if_pos rfl,
    if_neg (by simp [isPrefixOf_escaped value hrest])]

/-- Groups with commas and spaces between them do not leave the bracket they stand in. Each text but
the last is followed by a comma, whatever follows all of them. -/
theorem within_joined {texts : List Text} (hne : outer ≠ []) (houter : IsOutside outer)
    (hrest : rest.head? ≠ some (CodePoint.scalar '"'))
    (h : ∀ text ∈ texts, ∀ {rest : Text} {offset : Nat},
      rest.head? ≠ some (CodePoint.scalar '"') → Within rest outer offset text outer) :
    Within rest outer offset (Text.joined ", " texts) outer := by
  induction texts generalizing offset with
  | nil =>
    rw [Text.joined_nil]
    exact .nil
  | cons text more ih =>
    cases more with
    | nil =>
      rw [Text.joined_singleton]
      exact h text List.mem_cons_self hrest
    | cons next more =>
      rw [Text.joined_cons _ _ (List.cons_ne_nil _ _)]
      -- A comma follows the text, and not the quote that would make its own one multi-line.
      have hcomma : some (CodePoint.scalar ',') ≠ some (CodePoint.scalar '"') := by decide
      have htext : Within ((", " : Text) ++ Text.joined ", " (next :: more) ++ rest) outer offset
          text outer := h text List.mem_cons_self hcomma
      refine htext.append (.append (within_of_isPlain hne houter (by decide)) ?_)
      exact ih fun other hother => h other (List.mem_cons_of_mem text hother)

/-- **The written form of a literal is a group**, wherever it stands, unless a quote follows it. The
induction is on the literal, for all surroundings at once, as an element stands in other ones than
its array. -/
theorem isGroup_written (literal : Literal) : ∀ {rest : Text} {outer : List Opening} {offset : Nat},
    IsOutside outer → rest.head? ≠ some (CodePoint.scalar '"') →
    IsGroup rest outer offset literal.opener literal.inside literal.closer := by
  induction literal using Literal.induction with
  | htext value =>
    intro rest outer offset houter hrest
    exact isGroup_text value houter hrest
  | hlist elements ih =>
    intro rest outer offset houter hrest
    refine ⟨bracket .square offset, ?_, ?_, rfl⟩
    · rw [advance_of_isOutside houter]
      rfl
    · have hbracket : some (CodePoint.scalar ']') ≠ some (CodePoint.scalar '"') := by decide
      refine within_joined (List.cons_ne_nil _ _) isOutside_bracket hbracket ?_
      intro text htext rest offset hrest
      obtain ⟨element, helement, rfl⟩ := List.mem_map.1 htext
      rw [written_eq]
      exact (ih element helement isOutside_bracket hrest).within (List.cons_ne_nil _ _)

end Scanning

/-! ## Reading

What is written is read, string by string and element by element. Where the parts of a literal begin
and end is known by now, and what is left is what they say. -/

/-- A literal is one item of a list, and not several. -/
theorem isPiece_written (literal : Literal) : Item.IsPiece literal.written := by
  rw [written_eq]
  apply Item.isPiece_of_isGroup
  · cases literal
    · show CodePoint.scalar '"' ≠ CodePoint.scalar ','
      decide
    · show CodePoint.scalar '[' ≠ CodePoint.scalar ','
      decide
  · intro rest offset hrest
    exact literal.isGroup_written Opening.isOutside_nil hrest

/-- The first and the last code point of the written form are found to belong together, and its
inside is cut out between them. -/
theorem inside?_written (literal : Literal) :
    Text.inside? literal.written = .ok (some literal.inside) := by
  rw [written_eq]
  exact Text.inside?_of_isGroup (literal.isGroup_written Opening.isOutside_nil (by simp))

/-- An escape of two code points, in front of content that can be read, stands for one code
point. -/
theorem read_escape {c : CodePoint} {rest : Text} {content : StringContent}
    (hrest : StringContent.read rest = .ok content) {escaped : CodePoint}
    (hescape : Escape.read (escaped :: rest) = .ok ⟨[c], false, 1⟩) :
    StringContent.read (CodePoint.scalar '\\' :: escaped :: rest) =
      .ok (content.prepend [c] false) := by
  rw [StringContent.read, if_pos rfl, hescape]
  show (Reading.moved 2 (StringContent.read rest) >>= _) = _
  rw [hrest]
  rfl

theorem read_escapedPoint (c : CodePoint) {rest : Text} {content : StringContent}
    (hrest : StringContent.read rest = .ok content) :
    StringContent.read (escapedPoint c ++ rest) = .ok (content.prepend [c] false) := by
  rw [escapedPoint]
  split
  · rename_i hc
    subst hc
    exact read_escape hrest rfl
  · split
    · rename_i hc
      subst hc
      exact read_escape hrest rfl
    · split
      · rename_i hc
        subst hc
        exact read_escape hrest rfl
      · rename_i hbackslash _ _
        rw [List.singleton_append, StringContent.read, if_neg hbackslash, hrest]
        rfl

/-- The inside of a string is read as the string, without interpolations. -/
theorem read_escaped (value : Text) : StringContent.read (escaped value) = .ok ⟨value, false⟩ := by
  induction value with
  | nil =>
    rw [escaped, List.flatMap_nil, StringContent.read]
  | cons c more ih => exact read_escapedPoint c ih

/-- The items of a written array are its elements, in order, with the space that was put before all
but the first. -/
theorem arrayItems?_written (elements : List Literal) :
    ∃ items, Expression.arrayItems? (list elements).written = .ok (some items) ∧
      List.Forall₂ (fun item element => item.Holds element.written) items elements := by
  obtain ⟨items, hitems, hall⟩ := Item.split_joined_map isPiece_written isTrimmed_written elements
  refine ⟨items, ?_, hall⟩
  rw [Expression.arrayItems?, inside?_written]
  show (Reading.moved 1 (Item.split (Text.joined ", " (elements.map written))) >>= _) = _
  rw [hitems]
  rfl

/-- A text with a quote in front whose inside is the content of a string is that string. -/
theorem readTrimmed_of_inside? {text inner : Text} {content : StringContent}
    (hquote : text.head? = some (CodePoint.scalar '"'))
    (hinside : Text.inside? text = .ok (some inner))
    (hread : StringContent.read inner = .ok content) :
    Expression.readTrimmed text = .ok (.string content.value content.interpolated) := by
  rw [Expression.readTrimmed, hquote]
  simp only [reduceIte]
  rw [hinside]
  show (Reading.moved 1 (StringContent.read inner) >>= _) = _
  rw [hread]
  rfl

/-- A trimmed text is read the same way with a space before it. -/
theorem read_of_holds {item : Item} {text : Text} {e : Expression} (hitem : item.Holds text)
    (htrimmed : text.IsTrimmed) (hread : Expression.readTrimmed text = .ok e) :
    Expression.read item.text = .ok e := by
  have htrim : item.text.trim = text := by
    rcases hitem with heq | heq
    · rw [heq, htrimmed.trim_eq]
    · rw [heq, Text.trim_cons_of_isBlank (by decide), htrimmed.trim_eq]
  rw [Expression.read, htrim, hread]
  rfl

/-- If each element is read as it was written, the items of the array are read as its elements. -/
theorem forall₂_read {items : List Item} {elements : List Literal}
    (hall : List.Forall₂ (fun item element => item.Holds element.written) items elements)
    (ih : ∀ element ∈ elements,
      Expression.readTrimmed element.written = .ok element.expression) :
    List.Forall₂ (fun item e => Reading.moved (1 + item.offset) (Expression.read item.text) = .ok e)
      items (elements.map expression) := by
  induction hall with
  | nil => exact .nil
  | @cons item element _ _ hitem _ ihmore =>
    have hread : Expression.read item.text = .ok element.expression :=
      read_of_holds hitem element.isTrimmed_written (ih element List.mem_cons_self)
    exact .cons (Reading.moved_eq_ok.2 hread)
      (ihmore fun other hother => ih other (List.mem_cons_of_mem _ hother))

/-- **A literal is read as the expression it was written for.** A string comes down to its content,
an array to its elements, which the induction takes care of. -/
theorem readTrimmed_written (literal : Literal) :
    Expression.readTrimmed literal.written = .ok literal.expression := by
  induction literal using induction with
  | htext value =>
    have hquote : (text value).written.head? = some (CodePoint.scalar '"') := by
      rw [written_eq]
      rfl
    exact readTrimmed_of_inside? hquote (inside?_written (text value)) (read_escaped value)
  | hlist elements ih =>
    have hbracket : (list elements).written.head? = some (CodePoint.scalar '[') := by
      rw [written_eq]
      rfl
    obtain ⟨items, hitems, hall⟩ := arrayItems?_written elements
    rw [Expression.readTrimmed_array hbracket hitems,
      Outcome.mapM_eq_ok_iff.2 (forall₂_read hall ih), expression, expressions_eq_map]
    rfl

end Literal

end MemberSynthesis
