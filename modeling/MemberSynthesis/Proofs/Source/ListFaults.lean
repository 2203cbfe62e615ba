import MemberSynthesis.Proofs.Source.Content
import MemberSynthesis.Proofs.Source.Cutting
import MemberSynthesis.Proofs.Source.Pieces
import MemberSynthesis.Source.Argument

/-!
# Faults of expressions and arguments

An expression or an argument is read from a piece of a balanced text, and the pieces of a balanced
text are balanced. So the scanners that are sent over a piece again find nothing new, and the faults
that are left are blank items and escapes. Each of them is placed, in an expression
(`isPlacedIn_readTrimmed`) and in a whole argument list (`isPlacedIn_readAll`).

A blank item can only be told by what is around it: its fault is laid on the comma or the bracket
that ends it, which is no part of the item. So every item is looked at in its list
(`Reading.IsPlacedItem`), and only in the list is its fault placed. Escapes are placed in the item
and stay so when the item is put back.

Elements of an array are items once more: the proof follows the reader, which calls itself on
shorter texts only. What is proved of all shorter texts is the same statement, with anything behind
the text; the brackets around the elements then take the place of what is behind.
-/

set_option autoImplicit false

namespace MemberSynthesis

open Reading (IsPlacedItem IsPlacedIn isPlacedIn_ok)

/-! ## Items -/

/-- An item that is cut from the inside of a list is placed in the list. If it is blank, then a
comma or a bracket stands on each side of it. -/
theorem Item.IsCutFrom.isPlacedIn {α : Type} {inside after : Text} {item : Item}
    {reading : Reading α} {opener closer : CodePoint} (h : item.IsCutFrom inside)
    (hreading : IsPlacedItem item.text reading) (hopener : opener ∈ (['(', '['] : Text))
    (hcloser : closer ∈ ([')', ']'] : Text)) :
    (reading.moved (1 + item.offset)).IsPlacedIn (opener :: (inside ++ closer :: after)) := by
  obtain ⟨before, later, hinside, hoffset, hbefore, hlater⟩ := h.place
  have hstart : Text.StartsItem (opener :: before) := by
    rcases hbefore with rfl | ⟨earlier, rfl⟩
    · exact ⟨[], opener, rfl, by revert hopener; simp; tauto⟩
    · exact ⟨opener :: earlier, ',', rfl, by decide⟩
  have hend : Text.EndsItem (later ++ closer :: after) := by
    rcases hlater with rfl | ⟨rest, rfl⟩
    · exact ⟨closer, after, rfl, List.mem_cons_of_mem _ hcloser⟩
    · exact ⟨',', rest ++ closer :: after, rfl, by decide⟩
  have hplaced := hreading hstart hend
  rw [List.length_cons, Nat.add_comm, ← hoffset] at hplaced
  rw [hinside, List.append_assoc, List.append_assoc]
  exact hplaced

namespace Expression

theorem isPlacedItem_of_readTrimmed {item : Text} (hitem : item.IsBalanced)
    (h : item.trim.IsBalanced → item.trim ≠ [] →
      ∀ after, (readTrimmed item.trim).IsPlacedIn (item.trim ++ after)) :
    IsPlacedItem item (read item) := by
  intro before after hbefore hafter
  obtain ⟨lead, trail, hsplit, hlead, hblankLead, hblankTrail⟩ := item.exists_eq_append_trim
  rw [read, Reading.moved_moved, ← hlead, ← List.length_append]
  by_cases hnil : item.trim = []
  · -- The item is blank, and the fault is laid on what ends it.
    have hitemBlank : ∀ c ∈ item, c.isBlank := by
      intro c hc
      rw [hsplit, hnil, List.nil_append, List.mem_append] at hc
      rcases hc with hc | hc
      · exact hblankLead c hc
      · exact hblankTrail c hc
    rw [hnil, List.length_append, hlead, Text.leadingBlanks_of_isBlank hitemBlank,
      ← List.length_append, readTrimmed]
    intro fault hfault
    cases hfault
    exact ⟨before ++ item, after, (List.append_assoc before item after).symm, rfl,
      ⟨before, item, rfl, hbefore, hitemBlank⟩, hafter⟩
  · have hbalanced : item.trim.IsBalanced := by
      rw [hsplit] at hitem
      apply hitem.of_append
      · intro c hc
        exact (Opening.isPlain_of_isBlank (hblankLead c hc)).1
      · intro c hc
        exact (Opening.isPlain_of_isBlank (hblankTrail c hc)).1
    have hwhole :
        before ++ (item ++ after) = before ++ lead ++ (item.trim ++ (trail ++ after)) := by
      conv_lhs => rw [hsplit]
      simp only [List.append_assoc]
    rw [hwhole]
    exact (h hbalanced hnil (trail ++ after)).moved (before ++ lead)

/-- A text that starts with a quote is a string literal or of another form, and only a literal can
have a fault. -/
theorem isPlacedIn_readTrimmed_quote {rest after : Text} {last : Nat}
    (hunit : Text.unitEnd (CodePoint.scalar '"' :: rest) = .ok last) :
    (readTrimmed (CodePoint.scalar '"' :: rest)).IsPlacedIn
    (CodePoint.scalar '"' :: rest ++ after) := by
  have hstring := Opening.unitEndFrom_quote hunit
  have hlast := (Opening.bounds_of_unitEndFrom hstring).1
  rw [readTrimmed, List.head?_cons]
  simp only [reduceIte]
  rcases Text.inside?_cases hunit hlast with hmore | ⟨inner, final, rfl, rfl, hinside⟩
  · rw [hmore]
    exact isPlacedIn_ok
  · rw [hinside]
    rw [Nat.add_comm] at hstring
    have hcontent := (StringContent.isPlacedIn_read hstring (final :: after)).moved ['"']
    rw [List.cons_append, List.append_assoc]
    exact hcontent.bind fun _ _ => isPlacedIn_ok

/-- A text that starts with a square bracket and goes on after the closing one is no array, and has
no fault. -/
theorem readTrimmed_of_arrayItems?_none {text : Text}
    (hhead : text.head? = some (CodePoint.scalar '[')) (h : arrayItems? text = .ok none) :
    readTrimmed text = .ok (raw text) := by
  rw [readTrimmed, hhead]
  simp only [reduceIte]
  rw [if_neg (by decide)]
  split
  · rename_i hfound
    rw [h] at hfound
    cases hfound
  · rfl
  · rename_i hfound
    rw [h] at hfound
    cases hfound

/-- The items of an array are cut from the inside of its brackets, which ends before the last code
point. -/
theorem arrayItems?_cases {rest : Text} {last : Nat}
    (hunit : Text.unitEnd (CodePoint.scalar '[' :: rest) = .ok last) :
    arrayItems? (CodePoint.scalar '[' :: rest) = .ok none ∨
      ∃ inside items, rest = inside ++ [CodePoint.scalar ']'] ∧
        arrayItems? (CodePoint.scalar '[' :: rest) = .ok (some items) ∧
        ∀ item ∈ items, item.IsCutFrom inside := by
  obtain ⟨inside, more, hclosed, hinside, rfl⟩ := @Text.exists_closer_of_unitEnd .square _ _ hunit
  rw [arrayItems?]
  rcases Text.inside?_cases hunit (Nat.succ_pos _) with hmore | ⟨inner, final, hrest, hlast, hinner⟩
  · rw [hmore]
    exact .inl rfl
  · -- The bracket that closes the inside is the last code point.
    obtain ⟨rfl, hfinal⟩ := List.append_inj (hclosed.symm.trans hrest) (Nat.succ_injective hlast)
    cases hfinal
    obtain ⟨items, hsplit, hcut⟩ := Item.split_of_isBalanced hinside
    refine .inr ⟨inside, items, hrest, ?_, hcut⟩
    rw [hinner]
    show (Reading.moved 1 (Item.split inside) >>= fun items => _) = _
    rw [hsplit]
    rfl

/-- A text that starts with a square bracket is an array, whose elements are shorter, or of another
form. -/
theorem isPlacedIn_readTrimmed_square {rest after : Text} {last : Nat}
    (hunit : Text.unitEnd (CodePoint.scalar '[' :: rest) = .ok last)
    (h : ∀ element : Text, element.length < (CodePoint.scalar '[' :: rest).length →
      element.IsBalanced → element ≠ [] → ∀ after, (readTrimmed element).IsPlacedIn
        (element ++ after)) :
    (readTrimmed (CodePoint.scalar '[' :: rest)).IsPlacedIn
    (CodePoint.scalar '[' :: rest ++ after) := by
  rcases arrayItems?_cases hunit with hnone | ⟨inside, items, hrest, hitems, hcut⟩
  · rw [readTrimmed_of_arrayItems?_none rfl hnone]
    exact isPlacedIn_ok
  · rw [readTrimmed_array rfl hitems, hrest, List.cons_append, List.append_assoc]
    refine IsPlacedIn.bind (.mapM ?_) fun _ _ => isPlacedIn_ok
    intro item hitem
    have hplaced : IsPlacedItem item.text (read item.text) := by
      apply isPlacedItem_of_readTrimmed (hcut item hitem).balanced
      apply h
      exact Nat.lt_of_le_of_lt (Text.length_trim_le _) (length_of_arrayItems? hitems hitem)
    exact (hcut item hitem).isPlacedIn hplaced (by decide) (by decide)

/-- **Every fault of a balanced text is placed in it**, however deep the element stands that has it.
By recursion on the length of the text, as the reader goes. -/
theorem isPlacedIn_readTrimmed {text : Text} (htext : text.IsBalanced) (hne : text ≠ [])
    (after : Text) : (readTrimmed text).IsPlacedIn (text ++ after) := by
  obtain ⟨last, hunit⟩ := Text.unitEnd_of_isBalanced htext hne
  cases text with
  | nil => exact absurd rfl hne
  | cons c rest =>
    by_cases hquote : c = '"'
    · subst hquote
      exact isPlacedIn_readTrimmed_quote hunit
    by_cases hsquare : c = '['
    · subst hsquare
      apply isPlacedIn_readTrimmed_square hunit
      intro element hshorter helement hnonempty
      exact isPlacedIn_readTrimmed helement hnonempty
    · rw [readTrimmed, List.head?_cons]
      simp only [hquote, hsquare, if_false]
      exact isPlacedIn_ok
termination_by text.length

theorem isPlacedItem_read {item : Text} (hitem : item.IsBalanced) : IsPlacedItem item (read item) :=
  isPlacedItem_of_readTrimmed hitem isPlacedIn_readTrimmed

end Expression

/-! ## Arguments -/

namespace Argument

/-- The value of an argument with a label starts after a colon, and what precedes it neither opens
nor closes anything. -/
theorem exists_of_splitLabel? {item label value : Text}
    (h : splitLabel? item = some (label, value)) :
    ∃ labelled, item = labelled ++ CodePoint.scalar ':' :: value ∧
      ∀ c ∈ labelled, Opening.isPlain c := by
  unfold splitLabel? at h
  split at h
  · cases h
  · rename_i name rest hname
    split at h
    · cases h
    · rename_i c more hrest
      split at h
      · rename_i hcolon
        cases h
        obtain ⟨hidentifier, _, htrim⟩ := Identifier.split?_eq_some_iff.1 hname
        refine ⟨item.takeWhile CodePoint.isBlank ++
          (label ++ rest.takeWhile CodePoint.isBlank), ?_, ?_⟩
        · rw [← hcolon.1, List.append_assoc, List.append_assoc, ← hrest,
            Text.takeWhile_append_trimStart, ← htrim, Text.takeWhile_append_trimStart]
        · intro d hd
          rw [List.mem_append, List.mem_append] at hd
          rcases hd with hd | hd | hd
          · exact (Opening.isPlain_of_isBlank (Text.isBlank_of_mem_takeWhile hd)).1
          · exact (Opening.isPlain_of_isWord (Text.isWord_of_mem hidentifier hd)).1
          · exact (Opening.isPlain_of_isBlank (Text.isBlank_of_mem_takeWhile hd)).1
      · cases h

/-- The value behind a label is balanced if the whole argument is, since the scanner has nothing
entered behind the label. -/
theorem isBalanced_of_labelled {labelled value : Text}
    (h : (labelled ++ CodePoint.scalar ':' :: value).IsBalanced)
    (hplain : ∀ c ∈ labelled, Opening.isPlain c) : value.IsBalanced := by
  have hends : (labelled ++ [CodePoint.scalar ':'] ++ (value ++ [])).IsBalanced := by
    simpa using h
  apply hends.of_append
  · intro c hc
    rw [List.mem_append, List.mem_singleton] at hc
    rcases hc with hc | rfl
    · exact hplain c hc
    · decide
  · intro c hc
    cases hc

theorem isPlacedItem_read {item : Text} (hitem : item.IsBalanced) :
    IsPlacedItem item (read item) := by
  intro before after hbefore hafter
  unfold read
  split
  · rw [Reading.moved_bind]
    exact (Expression.isPlacedItem_read hitem hbefore hafter).bind fun _ _ => isPlacedIn_ok
  · rename_i label value hlabel
    obtain ⟨labelled, rfl, hplain⟩ := exists_of_splitLabel? hlabel
    -- What the colon starts is read as an item.
    have hvalue := isBalanced_of_labelled hitem hplain
    have hstart : Text.StartsItem (before ++ (labelled ++ [CodePoint.scalar ':'])) :=
      Text.StartsItem.append before ⟨labelled, ':', rfl, by decide⟩
    have hplaced := Expression.isPlacedItem_read hvalue hstart hafter
    have hlength :
        before.length + ((labelled ++ CodePoint.scalar ':' :: value).length - value.length) =
          (before ++ (labelled ++ [CodePoint.scalar ':'])).length := by
      simp only [List.length_append, List.length_cons, List.length_nil]
      omega
    have hwhole : before ++ (labelled ++ CodePoint.scalar ':' :: value ++ after) =
        before ++ (labelled ++ [CodePoint.scalar ':']) ++ (value ++ after) := by
      simp
    rw [Reading.moved_bind, Reading.moved_moved, hlength, hwhole]
    exact hplaced.bind fun _ _ => isPlacedIn_ok

/-- **Every fault of an argument list is placed in it**, the brackets around the list included: they
show where a blank argument is. -/
theorem isPlacedIn_readAll {inside after : Text} (hinside : inside.IsBalanced) :
    ((readAll inside).moved 1).IsPlacedIn
      (CodePoint.scalar '(' :: (inside ++ CodePoint.scalar ')' :: after)) := by
  obtain ⟨items, hsplit, hcut⟩ := Item.split_of_isBalanced hinside
  rw [readAll, hsplit]
  show (Reading.moved 1
    (items.mapM fun item => Reading.moved item.offset (read item.text))).IsPlacedIn _
  rw [Reading.moved_mapM]
  apply IsPlacedIn.mapM
  intro item hitem
  rw [Reading.moved_moved]
  exact (hcut item hitem).isPlacedIn (isPlacedItem_read (hcut item hitem).balanced)
    (by decide) (by decide)

end Argument

end MemberSynthesis
