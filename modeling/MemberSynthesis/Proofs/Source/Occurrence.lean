import MemberSynthesis.Proofs.Outcome
import MemberSynthesis.Proofs.Source.ListFaults
import MemberSynthesis.Proofs.Source.Writing

/-!
# Where string values come from

Whatever is read, however deep in arrays it lies, its text is cut out of the source in one piece:
the argument out of the argument list, the expression out of the argument, the elements out of the
array. So **each string value that a snippet holds was read from a string literal of the source**
(`Snippet.isReadFrom_of_read`), and one can speak about a value by speaking about the literal, which
is a stretch of the source text.

Being cut out of a text is `<:+:`, and each reader that cuts has one lemma that says so. What is
read from a piece is then carried to the whole by one step of monotonicity (`IsReadFrom.mono`), once
for every level. Where in the source the literal stands is not said: a value may well occur there
several times.
-/

set_option autoImplicit false

namespace MemberSynthesis

/-! ## Pieces are cut out of the text

Splitting, trimming and taking off the two ends: none of them puts anything together that did not
stand together. -/

namespace Item

/-- The first piece stands at the start of the text, and the other ones somewhere in it. -/
theorem isPrefix_of_piecesFrom {text : Text} : ∀ {entered : List Opening} {offset : Nat}
    {piece : Text} {more : List Item}, piecesFrom entered offset text = .ok (piece, more) →
      piece <+: text ∧ ∀ item ∈ more, item.text <:+: text := by
  induction text with
  | nil =>
    intro entered offset piece more h
    unfold piecesFrom at h
    split at h
    · cases h
      exact ⟨List.prefix_rfl, fun item hitem => absurd hitem List.not_mem_nil⟩
    · cases h
  | cons c rest ih =>
    intro entered offset piece more h
    unfold piecesFrom at h
    split at h
    · obtain ⟨⟨next, items⟩, hnext, hpieces⟩ := Reading.bind_eq_ok.1 h
      cases hpieces
      obtain ⟨hpiece, hwithin⟩ := ih hnext
      refine ⟨List.nil_prefix, fun item hitem => ?_⟩
      -- The piece of the rest is the first item behind the comma.
      rcases List.mem_cons.1 hitem with rfl | hitem
      · exact hpiece.isInfix.trans (List.infix_cons List.infix_rfl)
      · exact (hwithin item hitem).trans (List.infix_cons List.infix_rfl)
    · obtain ⟨still, _, hstill⟩ := Reading.bind_eq_ok.1 h
      obtain ⟨⟨next, items⟩, hnext, hpieces⟩ := Reading.bind_eq_ok.1 hstill
      cases hpieces
      obtain ⟨hpiece, hwithin⟩ := ih hnext
      exact ⟨List.cons_prefix_cons.2 ⟨rfl, hpiece⟩,
        fun item hitem => (hwithin item hitem).trans (List.infix_cons List.infix_rfl)⟩

/-- The items of a list are cut out of its inside. A blank last one may be dropped, which leaves the
others. -/
theorem isInfix_of_split {inside : Text} {items : List Item} (h : split inside = .ok items) :
    ∀ item ∈ items, item.text <:+: inside := by
  obtain ⟨⟨first, more⟩, hpieces, hitems⟩ := Reading.bind_eq_ok.1 h
  cases hitems
  obtain ⟨hfirst, hmore⟩ := isPrefix_of_piecesFrom hpieces
  intro item hitem
  rcases List.mem_cons.1 (mem_of_mem_withoutBlankLast hitem) with rfl | hitem
  · exact hfirst.isInfix
  · exact hmore item hitem

end Item

namespace Text

theorem isInfix_trim (text : Text) : text.trim <:+: text := by
  obtain ⟨before, after, hsplit, _⟩ := text.exists_eq_append_trim
  exact ⟨before, after, by rw [List.append_assoc]; exact hsplit.symm⟩

/-- What stands between the first and the last code point of a text that is one unit is cut out of
it. -/
theorem isInfix_of_inside? {text inner : Text} (h : inside? text = .ok (some inner)) :
    inner <:+: text := by
  obtain ⟨last, _, hinner⟩ := Reading.bind_eq_ok.1 h
  by_cases hlength : last + 1 = text.length
  · rw [if_pos hlength] at hinner
    cases hinner
    exact (List.dropLast_prefix _).isInfix.trans (List.drop_suffix 1 text).isInfix
  · rw [if_neg hlength] at hinner
    cases hinner

/-- The text is a string literal from its first code point to its last, and `inside` stands between
its quotes. -/
def IsQuoted (text inside : Text) : Prop :=
  text.head? = some (CodePoint.scalar '"') ∧ inside? text = .ok (some inside)

end Text

/-! ## String values

A value may lie in an array of arrays, and the induction is on where it lies. -/

namespace Expression

/-- The expression is a string with the value, or an array that holds such an expression. -/
inductive HasString : Expression → Text → Prop
  | string {value : Text} {interpolated : Bool} : HasString (string value interpolated) value
  | array {elements : List Expression} {element : Expression} {value : Text} :
    element ∈ elements → HasString element value → HasString (array elements) value

/-- The value was read from a string literal that was cut out of the text: the literal is one from
its first to its last code point, and the value is what stands for its inside. -/
def IsReadFrom (text value : Text) : Prop :=
  ∃ (literal inside : Text) (content : StringContent), literal <:+: text ∧ literal.IsQuoted inside ∧
    StringContent.read inside = .ok content ∧ content.value = value

/-- A literal of a part is a literal of the whole. -/
theorem IsReadFrom.mono {text more value : Text} (h : IsReadFrom text value)
    (hwithin : text <:+: more) :
    IsReadFrom more value := by
  obtain ⟨literal, inside, content, hliteral, hrest⟩ := h
  exact ⟨literal, inside, content, hliteral.trans hwithin, hrest⟩

/-- The items of an array are cut out of its inside, and that is cut out of the array. -/
theorem isInfix_of_arrayItems? {text : Text} {items : List Item}
    (h : arrayItems? text = .ok (some items)) : ∀ item ∈ items, item.text <:+: text := by
  obtain ⟨inner?, hinner, hitems⟩ := Reading.bind_eq_ok.1 h
  cases inner? with
  | none => cases hitems
  | some inner =>
    obtain ⟨pieces, hsplit, hpieces⟩ := Reading.bind_eq_ok.1 hitems
    cases hpieces
    intro item hitem
    exact (Item.isInfix_of_split (Reading.moved_eq_ok.1 hsplit) item hitem).trans
      (Text.isInfix_of_inside? hinner)

/-- A string is read from the text itself, as a literal; and what lies in an array from one of its
items, which is shorter. -/
theorem isReadFrom_of_readTrimmed {text value : Text} {expression : Expression}
    (h : readTrimmed text = .ok expression) (hvalue : expression.HasString value) :
    IsReadFrom text value := by
  induction hlength : text.length using Nat.strongRecOn generalizing text expression with
  | ind n ih =>
    subst hlength
    rw [readTrimmed] at h
    split at h
    · cases h
    · rename_i c hhead
      split at h
      · rename_i hquote
        obtain ⟨inner?, hinner, hcontent⟩ := Reading.bind_eq_ok.1 h
        cases inner? with
        | none =>
          cases hcontent
          cases hvalue
        | some inner =>
          obtain ⟨content, hread, hexpression⟩ := Reading.bind_eq_ok.1 hcontent
          cases hexpression
          cases hvalue
          -- A string: the text is the literal.
          exact ⟨text, inner, content, List.infix_rfl, ⟨hquote ▸ hhead, hinner⟩,
            Reading.moved_eq_ok.1 hread, rfl⟩
      · split at h
        · split at h
          · cases h
          · cases h
            cases hvalue
          · rename_i items hitems
            obtain ⟨elements, helements, hexpression⟩ := Reading.bind_eq_ok.1 h
            cases hexpression
            cases hvalue with
            | array hmem hvalue =>
              obtain ⟨⟨item, hitem⟩, _, hread⟩ :=
                Outcome.exists_of_mem_of_forall₂ (Outcome.mapM_eq_ok_iff.1 helements) _ hmem
              -- An array: the value lies in one of its elements, which is cut out of a shorter
              -- text.
              have hwithin := isInfix_of_arrayItems? hitems item hitem
              refine (ih _ ?_ (Reading.moved_eq_ok.1 hread) hvalue rfl).mono
                ((Text.isInfix_trim item.text).trans hwithin)
              exact Nat.lt_of_le_of_lt (Text.length_trim_le _) (length_of_arrayItems? hitems hitem)
        · cases h
          cases hvalue

theorem isReadFrom_of_read {item value : Text} {expression : Expression}
    (h : read item = .ok expression) (hvalue : expression.HasString value) :
    IsReadFrom item value :=
  (isReadFrom_of_readTrimmed (Reading.moved_eq_ok.1 h) hvalue).mono (Text.isInfix_trim item)

end Expression

namespace Argument

theorem isReadFrom_of_read {item value : Text} {argument : Argument} (h : read item = .ok argument)
    (hvalue : argument.expression.HasString value) : Expression.IsReadFrom item value := by
  rw [read] at h
  split at h
  · obtain ⟨expression, hexpression, hargument⟩ := Reading.bind_eq_ok.1 h
    cases hargument
    exact Expression.isReadFrom_of_read hexpression hvalue
  · rename_i label rest hlabel
    obtain ⟨expression, hexpression, hargument⟩ := Reading.bind_eq_ok.1 h
    cases hargument
    refine (Expression.isReadFrom_of_read (Reading.moved_eq_ok.1 hexpression) hvalue).mono ?_
    obtain ⟨labelled, rfl, _⟩ := exists_of_splitLabel? hlabel
    rw [List.append_cons]
    exact (List.suffix_append _ rest).isInfix

end Argument

namespace Snippet

/-- The values of an argument come from the argument list, and it stands behind the name of the
attribute. -/
theorem isReadFrom_of_readArguments {text value : Text} {arguments : List Argument} {used : Nat}
    {argument : Argument} (h : readArguments text = .ok (arguments, used))
    (hargument : argument ∈ arguments)
    (hvalue : argument.expression.HasString value) : Expression.IsReadFrom text value := by
  rw [readArguments] at h
  split at h
  · obtain ⟨close, _, hlist⟩ := Reading.bind_eq_ok.1 h
    obtain ⟨read, hall, hread⟩ := Reading.bind_eq_ok.1 hlist
    cases hread
    obtain ⟨items, hsplit, hitems⟩ := Reading.bind_eq_ok.1 (Reading.moved_eq_ok.1 hall)
    obtain ⟨item, hitem, hargument⟩ :=
      Outcome.exists_of_mem_of_forall₂ (Outcome.mapM_eq_ok_iff.1 hitems) _ hargument
    refine (Argument.isReadFrom_of_read (Reading.moved_eq_ok.1 hargument) hvalue).mono ?_
    exact (Item.isInfix_of_split hsplit item hitem).trans
      ((List.take_prefix _ _).isInfix.trans (List.drop_suffix _ text).isInfix)
  · cases h
    cases hargument

/-- **Every string value of a snippet was read from a string literal of the source.** -/
theorem isReadFrom_of_read {name text value : Text} {snippet : Snippet} {argument : Argument}
    (h : read name text = .ok snippet) (hargument : argument ∈ snippet.directive.arguments)
    (hvalue : argument.expression.HasString value) : Expression.IsReadFrom text value := by
  obtain ⟨offset, _, hafter⟩ := read_eq_ok_iff.1 h
  obtain ⟨arguments, used, _, _, harguments, _, _, rfl⟩ := readAfter_eq_ok_iff.1 hafter
  refine (isReadFrom_of_readArguments harguments hargument hvalue).mono ?_
  exact (List.drop_suffix _ text).isInfix

end Snippet

end MemberSynthesis
