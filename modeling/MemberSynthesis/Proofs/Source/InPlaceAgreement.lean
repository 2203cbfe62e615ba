import MemberSynthesis.Proofs.Source.InPlace

/-!
# Reading in place is reading pieces

A reader that is given a text of its own does not know where the text was cut out, and its faults
are moved by the place of the cut. **Reading in place comes to the same**, in what it gives and in
what it blames at which offset, from a single expression up to a whole snippet
(`InPlace.snippet_endsBy`). So all that is proved of the reader of pieces, its grammar, its faults
and its round trips, is true of the one that goes over the whole text.

What carries this is that the reader is only ever sent to a piece (`InPlace.IsPieceAt`): its text is
balanced, and what stands behind it, a comma or a closing bracket, can not be taken for more of it.
So the first unit of the piece is the first unit of all that is left of the text, and the stretches
that the inside of a list is split into are pieces again.

It would not do to say that the two readers agree on every stretch. On a stretch that cuts a literal
in two, the one in place finds the quote behind the stretch and the other one does not. That such
stretches never come up is the invariant, and it is kept in three steps: from brackets to the
stretches between them (`split_of_closerOf`), from a stretch to what stands in it without blanks
(`IsPieceAt.trimmed`), and from an argument to the value behind its label (`IsPieceAt.value`).
-/

set_option autoImplicit false

namespace MemberSynthesis

namespace Opening

variable {entered : List Opening} {offset : Nat} {rest text : Text}

/-- Where the scanner goes over a text in front of another one, the first unit is that of the text
by itself. -/
theorem unitEndFrom_append_of_passes (h : Passes rest entered offset text []) (hne : text ≠ []) :
    unitEndFrom entered offset (text ++ rest) = unitEndFrom entered offset text := by
  induction text generalizing entered offset with
  | nil => exact absurd rfl hne
  | cons c more ih =>
    cases h with
    | @cons _ next _ _ _ _ hstep hmore =>
      have hshorter := advance_of_isPrefix hstep (@List.nil_prefix _ rest)
      rw [List.append_nil] at hshorter
      rw [List.cons_append, unitEndFrom, unitEndFrom, hstep, hshorter]
      show (if next.isEmpty then _ else unitEndFrom next (offset + 1) (more ++ rest)) =
        if next.isEmpty then _ else unitEndFrom next (offset + 1) more
      split
      · rfl
      · rename_i hempty
        refine ih hmore fun hnil => hempty ?_
        subst hnil
        cases hmore
        rfl

end Opening

namespace Text

variable {text : Text} {start e : Nat}

/-- The first unit of a balanced text is the same where more follows. A quote behind it is excluded,
for it might open a string literal of three quotes with its last two. -/
theorem unitEnd_append_of_isBalanced {rest : Text} (h : text.IsBalanced) (hne : text ≠ [])
    (hrest : rest.head? ≠ some (CodePoint.scalar '"')) : unitEnd (text ++ rest) = unitEnd text :=
  Opening.unitEndFrom_append_of_passes (Grammar.passes_of_isBalanced h hrest 0) hne

/-- Decoding a string literal that was skipped is reading what stands between its quotes, and the
cursor ends on the closing one. -/
theorem decode_eq (h : text.skipString start = .ok e) :
    text.decode start e = ((StringContent.read (text.insideLiteral start e)).moved (start + 1)).map
      fun content => (content, e - 1) := by
  obtain ⟨inside, after, hdrop, rfl, hlast⟩ := exists_of_skipString h
  have hsettled : Opening.IsSettled [.string start] := by simp [Opening.IsSettled]
  obtain ⟨tokens, htokens⟩ := StringToken.exists_splits hsettled hlast
  obtain ⟨hinside, hafter⟩ := drop_eq_append_iff.1 hdrop
  have hfront : (text.take (start + 1)).length = start + 1 := by
    have hlength := congrArg List.length hdrop
    rw [List.length_drop, List.length_append, List.length_cons] at hlength
    rw [List.length_take]
    omega
  have hwhole := decodeFrom_eq htokens rfl (text.take (start + 1))
  rw [← hdrop, List.take_append_drop, hfront] at hwhole
  rw [insideLiteral, Nat.add_sub_cancel, hinside]
  exact hwhole

/-- Blanks end at a code point that is none, whatever follows it. -/
theorem leadingBlanks_append_cons {c : CodePoint} (hc : c.isBlank = false) (before after : Text) :
    leadingBlanks (before ++ c :: after) = leadingBlanks before := by
  rw [leadingBlanks, leadingBlanks, List.takeWhile_append]
  split
  · rename_i hlength
    rw [List.takeWhile_cons_of_neg (by simp [hc]), List.append_nil, hlength]
  · rfl

end Text

namespace Expression

/-- A text that starts with a square bracket is an array, if it is all that the brackets enclose,
and taken as it is written if not. -/
theorem readTrimmed_square {text : Text} (h : text.head? = some (CodePoint.scalar '[')) :
    readTrimmed text = (do
      match ← arrayItems? text with
      | none => return raw text
      | some items =>
        let elements ← Reading.moved 1 (Item.readEach read items)
        return array elements) := by
  cases hitems : arrayItems? text with
  | error fault =>
    rw [readTrimmed, h]
    simp only [reduceIte]
    rw [if_neg (by decide)]
    split
    all_goals
      rename_i hfound
      rw [hitems] at hfound
      cases hfound
    rfl
  | ok found =>
    cases found with
    | none => exact readTrimmed_of_arrayItems?_none h hitems
    | some items =>
      rw [readTrimmed_array h hitems]
      show _ =
        Reading.moved 1 (items.mapM fun item => Reading.moved item.offset (read item.text)) >>= _
      rw [Reading.moved_mapM]
      simp only [Reading.moved_moved]

end Expression

namespace InPlace

variable {text : Text} {start stop : Nat}

/-- A balanced text stands in the stretch, and a code point that is neither a blank nor a quote
behind it. -/
structure IsPieceAt (text : Text) (start stop : Nat) : Prop where
  le : start ≤ stop
  balanced : (Span.slice text ⟨start, stop⟩).IsBalanced
  ends : ∃ c, text[stop]? = some c ∧ c.isBlank = false ∧ c ≠ '"'

/-- What stands in a stretch, without the blanks around it, stands between the offsets that the
reader goes on with. -/
structure IsTrimmedAt (text : Text) (first last : Nat) (trimmed : Text) : Prop where
  last_eq : last = first + trimmed.length
  slice_eq : Span.slice text ⟨first, last⟩ = trimmed
  balanced : trimmed.IsBalanced
  behind : ∃ rest, text.drop first = trimmed ++ rest ∧ rest.head? ≠ some (CodePoint.scalar '"')

/-- Without the blanks around it, a piece stands where the reader goes on: behind the blanks at its
start, up to the offset before those at its end. -/
theorem IsPieceAt.trimmed (h : IsPieceAt text start stop) :
    pastBlanks text start = start + (Span.slice text ⟨start, stop⟩).leadingBlanks ∧
      ∃ last, beforeBlanks text (pastBlanks text start) stop = .ok last ∧
        IsTrimmedAt text (pastBlanks text start) last (Span.slice text ⟨start, stop⟩).trim := by
  obtain ⟨c, hc, hblank, hquote⟩ := h.ends
  have hstop : stop ≤ text.length := Nat.le_of_lt (List.getElem?_eq_some_iff.1 hc).1
  have hdrop := Span.slice_append_drop text h.le
  have hfirst : pastBlanks text start = start + (Span.slice text ⟨start, stop⟩).leadingBlanks := by
    rw [pastBlanks, ← hdrop, Text.drop_eq_cons_of_getElem? hc,
      Text.leadingBlanks_append_cons hblank]
  obtain ⟨lead, trail, hsplit, hlead, hblankLead, hblankTrail⟩ :=
    (Span.slice text ⟨start, stop⟩).exists_eq_append_trim
  have hlength := congrArg List.length hsplit
  rw [Span.length_slice hstop, List.length_append, hlead] at hlength
  -- A piece without blanks around it is found from both ends, and from the front first.
  have hle : pastBlanks text start ≤ stop := by
    have hstart := h.le
    omega
  have htail : Span.slice text ⟨pastBlanks text start, stop⟩ =
      (Span.slice text ⟨start, stop⟩).trimStart := by
    rw [← Text.drop_leadingBlanks, hfirst, Span.slice, Span.slice, List.drop_drop]
  have hlast : beforeBlanks text (pastBlanks text start) stop =
      .ok (pastBlanks text start + (Span.slice text ⟨start, stop⟩).trim.length) := by
    rw [beforeBlanks_eq hle hstop, htail]
    rfl
  rw [hsplit, List.append_assoc] at hdrop
  obtain ⟨_, hbehind⟩ := Text.drop_eq_append_iff.1 hdrop.symm
  rw [hlead, ← hfirst, List.append_assoc] at hbehind
  have hbalanced := h.balanced
  rw [hsplit] at hbalanced
  refine ⟨hfirst, _, hlast, rfl, (Text.drop_eq_append_iff.1 hbehind).1, ?_, _, hbehind, ?_⟩
  · exact hbalanced.of_append (fun d hd => (Opening.isPlain_of_isBlank (hblankLead d hd)).1)
      fun d hd => (Opening.isPlain_of_isBlank (hblankTrail d hd)).1
  · cases trail with
    -- Behind the trimmed piece stands what ends the item, or else a blank: no quote in either case.
    | nil =>
      rw [List.nil_append, Text.drop_eq_cons_of_getElem? hc, List.head?_cons]
      exact fun heq => hquote (Option.some.inj heq)
    | cons d trail =>
      rintro heq
      cases heq
      exact absurd (hblankTrail _ List.mem_cons_self) (by decide)

/-! ## What starts at the first code point

The searches are made in the whole text, and what they find is where it would be found in the piece,
as the piece is balanced and nothing that could go on with it follows. -/

variable {first last : Nat} {trimmed : Text}

/-- The unit that the piece starts with is the one that starts there in the whole text, and so are
its faults. -/
theorem IsTrimmedAt.unitEnd (h : IsTrimmedAt text first last trimmed) (hne : trimmed ≠ []) :
    Text.unitEnd (text.drop first) = Text.unitEnd trimmed := by
  obtain ⟨rest, hdrop, hquote⟩ := h.behind
  rw [hdrop, Text.unitEnd_append_of_isBalanced h.balanced hne hquote]

theorem IsTrimmedAt.getElem? (h : IsTrimmedAt text first last trimmed) {c : CodePoint}
    (hc : trimmed.head? = some c) : text[first]? = some c := by
  obtain ⟨rest, hdrop, _⟩ := h.behind
  obtain ⟨more, rfl⟩ := List.head?_eq_some_iff.1 hc
  rw [← List.head?_drop, hdrop]
  rfl

/-- The bracket that closes the first one stands where it stands in the piece, counted from the
start of the piece. -/
theorem IsTrimmedAt.closerOf (h : IsTrimmedAt text first last trimmed) (hne : trimmed ≠ []) :
    text.closerOf first = (Reading.moved first (Text.unitEnd trimmed)).map (first + ·) := by
  rw [Text.closerOf, h.unitEnd hne]
  rfl

/-- The text between the first and the last code point is a stretch as well. -/
theorem IsTrimmedAt.inside (h : IsTrimmedAt text first last trimmed) :
    (trimmed.drop 1).dropLast = Span.slice text ⟨first + 1, last - 1⟩ := by
  have hlength : (trimmed.drop 1).length - 1 = last - 1 - (first + 1) := by
    rw [List.length_drop, h.last_eq]
    omega
  have hle : last - 1 - (first + 1) ≤ last - (first + 1) := by omega
  rw [List.dropLast_eq_take, hlength, ← h.slice_eq, Span.slice, Span.slice, List.drop_drop,
    List.drop_take, List.drop_take, List.take_take, Nat.min_eq_left hle]

/-- The expression in a stretch, read as a text of its own, with its fault moved to the stretch. -/
def elementAt (text : Text) (span : Span) : Reading Expression :=
  Reading.moved span.start (Expression.read (span.slice text))

/-- What is told of a piece, in place, is the expression that it is by itself, if the elements are
read by themselves. -/
def Form.Agrees (text : Text) (first : Nat) (trimmed : Text) (found : Reading Form) : Prop :=
  found >>= Form.expression (elementAt text) = (Expression.readTrimmed trimmed).moved first

/-- A piece that starts with a quote is a string literal in place just when it is one by itself. In
both cases it is the unit that decides whether anything follows. -/
theorem formOf_quote_of_isTrimmedAt (h : IsTrimmedAt text first last trimmed)
    (hquote : trimmed.head? = some (CodePoint.scalar '"')) :
    Form.Agrees text first trimmed (do
      let e ← text.skipString first
      if e = last then do
        let (content, _) ← text.decode first last
        return .string content
      else return .raw (Span.slice text ⟨first, last⟩)) := by
  have hne : trimmed ≠ [] := fun hnil => by rw [hnil] at hquote; cases hquote
  rw [Form.Agrees, Expression.readTrimmed, hquote, Text.skipString_eq_literalEnd
    (h.getElem? hquote), Text.literalEnd, h.unitEnd hne]
  simp only [reduceIte]
  cases hunit : Text.unitEnd trimmed with
  | error fault =>
    rw [Text.inside?, hunit]
    rfl
  | ok k =>
    have hskip : text.skipString first = .ok (first + k + 1) := by
      rw [Text.skipString_eq_literalEnd (h.getElem? hquote), Text.literalEnd, h.unitEnd hne, hunit]
      rfl
    have hlast := h.last_eq
    rw [Text.inside?_of_unitEnd hunit]
    show (if first + k + 1 = last then _ else _) >>= _ = _
    -- The literal is all of the piece, or something follows it and nothing is decoded.
    by_cases hwhole : k + 1 = trimmed.length
    · obtain rfl : first + k + 1 = last := by omega
      have hinside : text.insideLiteral first (first + k + 1) = (trimmed.drop 1).dropLast :=
        h.inside.symm
      rw [if_pos rfl, if_pos hwhole, Text.decode_eq hskip, hinside]
      show _ = Reading.moved first
        (Reading.moved 1 (StringContent.read (trimmed.drop 1).dropLast) >>= _)
      cases StringContent.read (trimmed.drop 1).dropLast with
      | error fault => simp [Reading.moved, Except.map, bind, Except.bind, Nat.add_assoc]
      | ok content => rfl
    · rw [if_neg (by omega), if_neg hwhole, h.slice_eq]
      rfl

/-! ## Lists -/

/-- **A list that is split in place is one that is split by itself**, and each of the stretches is a
piece: undivided text up to a comma or the closing bracket. -/
theorem split_of_closerOf {kind : Bracket} {i j : Nat}
    (hopener : text[i]? = some (CodePoint.scalar kind.opener)) (hcloser : text.closerOf i = .ok j) :
    ∃ spans, Run.EndsBy (text.length - (i + 1)) (split text (i + 1) j) (.ok spans) ∧
      Item.split (Span.slice text ⟨i + 1, j⟩) = .ok (spans.map (Span.item text (i + 1))) ∧
      ∀ span ∈ spans, i < span.start ∧ IsPieceAt text span.start span.stop := by
  obtain ⟨hlt, hclose, hbalanced⟩ := (Text.closerOf_eq_ok_iff hopener).1 hcloser
  have hj : j ≤ text.length := Nat.le_of_lt (List.getElem?_eq_some_iff.1 hclose).1
  obtain ⟨last, _, hsplit, _, _, _, hspans⟩ := split_of_passes hlt hj (hbalanced.passes (i + 1))
  obtain ⟨outcome, hends, _⟩ := exists_split_endsBy text (i + 1) j
  rw [hends.endsWith.unique hsplit] at hends
  refine ⟨_, hends, hspans.items, fun span hspan => ?_⟩
  obtain ⟨hfirst, hle, _⟩ := hspans.splitOff.within span hspan
  refine ⟨hfirst, hle, (hspans.splitOff.undivided span hspan).balanced, ?_⟩
  rcases hspans.ends span hspan with hstop | hcomma
  · rw [hstop]
    exact ⟨_, hclose, by cases kind <;> decide, by cases kind <;> decide⟩
  · exact ⟨_, hcomma, by decide, by decide⟩

/-- Items that are read each at its place in the list are read each at its place in the text. -/
theorem moved_readEach {α : Type} {read : Text → Reading α} {spans : List Span}
    (h : ∀ span ∈ spans, first ≤ span.start) :
    Reading.moved first (Item.readEach read (spans.map (Span.item text first))) =
      spans.mapM fun span => Reading.moved span.start (read (span.slice text)) := by
  induction spans with
  | nil => rfl
  | cons span more ih =>
    have hstart : first + (span.start - first) = span.start :=
      Nat.add_sub_cancel' (h span List.mem_cons_self)
    have hmore := ih fun other hother => h other (List.mem_cons_of_mem span hother)
    rw [Item.readEach, Reading.moved_mapM] at hmore ⊢
    rw [List.map_cons, List.mapM_cons, List.mapM_cons, hmore, Reading.moved_moved,
      Span.item, hstart]

/-- A piece that starts with a square bracket is an array in place just when it is one by itself,
and its elements are pieces behind the bracket. -/
theorem formOf_square_of_isTrimmedAt (h : IsTrimmedAt text first last trimmed)
    (hsquare : trimmed.head? = some (CodePoint.scalar '[')) :
    ∃ outcome, Run.EndsBy (text.length - first) (formOf text first last '[') outcome ∧
      Form.Agrees text first trimmed outcome ∧
      ∀ spans, outcome = .ok (.array spans) → ∀ span ∈ spans,
        first < span.start ∧ IsPieceAt text span.start span.stop := by
  have hne : trimmed ≠ [] := fun hnil => by rw [hnil] at hsquare; cases hsquare
  have hopener : text[first]? = some (CodePoint.scalar Bracket.square.opener) := h.getElem? hsquare
  have hcloser := h.closerOf hne
  have hlast := h.last_eq
  by_cases hwhole : ∃ k, Text.unitEnd trimmed = .ok k ∧ k + 1 = trimmed.length
  -- The bracket is closed at the end of the piece: it is an array, and splitting gives its items.
  · obtain ⟨k, hunit, hk⟩ := hwhole
    have hclose : text.closerOf first = .ok (first + k) := by rw [hcloser, hunit]; rfl
    obtain rfl : first + k + 1 = last := by omega
    obtain ⟨spans, hsplit, hitems, hpieces⟩ := split_of_closerOf hopener hclose
    have harray : Expression.arrayItems? trimmed =
        .ok (some (spans.map (Span.item text (first + 1)))) := by
      rw [Expression.arrayItems?, Text.inside?_of_unitEnd hunit, if_pos hk, h.inside]
      show (Reading.moved 1 (Item.split (Span.slice text ⟨first + 1, first + k⟩)) >>= _) = _
      rw [hitems]
      rfl
    refine ⟨_, formOf_square_of_closerOf hopener hclose (hsplit.mono (by omega)), ?_,
      fun _ hspans => ?_⟩
    · rw [Form.Agrees, Expression.readTrimmed_square hsquare, harray]
      show spans.mapM (elementAt text) >>= _ = Reading.moved first (Reading.moved 1 _ >>= _)
      have hbehind : ∀ span ∈ spans, first + 1 ≤ span.start := fun span hspan =>
        (hpieces span hspan).1
      rw [Reading.moved_bind, Reading.moved_moved, moved_readEach hbehind]
      rfl
    · cases hspans
      exact hpieces
  -- It is closed earlier, or not at all: the piece is kept as it is written, or both readers fail.
  · have hpart : ∀ close, text.closerOf first = .ok close → close + 1 ≠ last := by
      intro close hclose hend
      rw [hcloser] at hclose
      obtain ⟨k, hk, rfl⟩ := Outcome.map_eq_ok_iff.1 hclose
      exact hwhole ⟨k, Reading.moved_eq_ok.1 hk, by omega⟩
    refine ⟨_, formOf_square_of_forall_ne hopener hpart, ?_, fun spans hspans => ?_⟩
    · rw [Form.Agrees, Expression.readTrimmed_square hsquare, Expression.arrayItems?, hcloser,
        h.slice_eq]
      cases hunit : Text.unitEnd trimmed with
      | error fault =>
        rw [Text.inside?, hunit]
        rfl
      | ok k =>
        rw [Text.inside?_of_unitEnd hunit, if_neg fun hk => hwhole ⟨k, hunit, hk⟩]
        rfl
    · obtain ⟨_, _, hraw⟩ := Outcome.map_eq_ok_iff.1 hspans
      cases hraw

/-! ## Expressions -/

/-- Whatever a piece starts with, it is told in place what it is by itself, and the elements of an
array are pieces. -/
theorem exists_formOf_of_isTrimmedAt (h : IsTrimmedAt text first last trimmed) {c : CodePoint}
    (hc : trimmed.head? = some c) :
    ∃ outcome, Run.EndsBy (text.length - first) (formOf text first last c) outcome ∧
      Form.Agrees text first trimmed outcome ∧
      ∀ spans, outcome = .ok (.array spans) → ∀ span ∈ spans,
        first < span.start ∧ IsPieceAt text span.start span.stop := by
  by_cases hquote : c = '"'
  · subst hquote
    refine ⟨_, formOf_quote_endsBy text first last, formOf_quote_of_isTrimmedAt h hc, ?_⟩
    intro spans hspans
    obtain ⟨e, _, hform⟩ := Reading.bind_eq_ok.1 hspans
    split at hform
    · obtain ⟨_, _, hstring⟩ := Reading.bind_eq_ok.1 hform
      cases hstring
    · cases hform
  · by_cases hsquare : c = '['
    · subst hsquare
      exact formOf_square_of_isTrimmedAt h hc
    · refine ⟨_, formOf_other_endsBy hquote hsquare _, ?_, fun _ hraw => by cases hraw⟩
      rw [Form.Agrees, Expression.readTrimmed, hc, h.slice_eq]
      simp only [if_neg hquote, if_neg hsquare]
      rfl

/-- It is told of a piece, blanks around it ignored, what it is by itself. An empty piece has no
expression in either reading. -/
theorem IsPieceAt.exists_form (h : IsPieceAt text start stop) :
    ∃ outcome, Run.EndsBy (text.length - start) (form text start stop) outcome ∧
      outcome >>= Form.expression (elementAt text) = elementAt text ⟨start, stop⟩ ∧
      ∀ spans, outcome = .ok (.array spans) → ∀ span ∈ spans,
        start < span.start ∧ IsPieceAt text span.start span.stop := by
  obtain ⟨hfirst, last, hlast, htrimmed⟩ := h.trimmed
  have hle : start ≤ pastBlanks text start := Nat.le_add_right _ _
  have hread : elementAt text ⟨start, stop⟩ =
      (Expression.readTrimmed (Span.slice text ⟨start, stop⟩).trim).moved
        (pastBlanks text start) := by
    rw [elementAt, Expression.read, Reading.moved_moved, hfirst]
  have hlength := htrimmed.last_eq
  rw [hread]
  cases htrim : (Span.slice text ⟨start, stop⟩).trim with
  | nil =>
    -- A blank piece: both readers blame what follows its blanks.
    obtain rfl : last = pastBlanks text start := by rw [hlength, htrim]; rfl
    refine ⟨.error ⟨.noExpression, pastBlanks text start⟩, fun steps _ => ?_, ?_, ?_⟩
    · rw [form, hlast, Run.ended_ok_bind, if_pos rfl]
      rfl
    · rw [Expression.readTrimmed]
      rfl
    · intro spans hspans
      cases hspans
  | cons c more =>
    have hhead : (Span.slice text ⟨start, stop⟩).trim.head? = some c := by rw [htrim]; rfl
    obtain ⟨outcome, hends, hagrees, hpieces⟩ := exists_formOf_of_isTrimmedAt htrimmed hhead
    rw [htrim, List.length_cons] at hlength
    refine ⟨outcome, fun steps hsteps => ?_, htrim ▸ hagrees, fun spans hspans span hspan => ?_⟩
    · rw [form, hlast, Run.ended_ok_bind, if_neg (by omega), htrimmed.getElem? hhead]
      exact hends steps (by omega)
    · obtain ⟨hless, hpiece⟩ := hpieces spans hspans span hspan
      exact ⟨by omega, hpiece⟩

/-- **A piece is read in place as it is read by itself.** By induction on what is left of the text,
since the elements of an array start further on. -/
theorem IsPieceAt.expression_endsBy (h : IsPieceAt text start stop) :
    Run.EndsBy (text.length - start + 1) (expression text start stop)
      (elementAt text ⟨start, stop⟩) := by
  -- By induction on the length of the text that is left: an element starts behind its array.
  induction hlength : text.length - start using Nat.strong_induction_on generalizing start stop with
  | _ length ih =>
    subst hlength
    obtain ⟨c, hc, _⟩ := h.ends
    have hstop := (List.getElem?_eq_some_iff.1 hc).1
    have hle := h.le
    obtain ⟨outcome, hform, hagrees, hpieces⟩ := h.exists_form
    rw [← hagrees]
    refine InPlace.expression_endsBy hform fun spans hspans span hspan => ?_
    obtain ⟨hless, hpiece⟩ := hpieces spans hspans span hspan
    exact (ih _ (by omega) hpiece rfl).mono (by omega)

/-! ## Arguments -/

/-- Behind the label of a piece its value is a piece. A label opens nothing, so what is left is
balanced. -/
theorem IsPieceAt.value {label value : Text} (h : IsPieceAt text start stop)
    (hlabel : Argument.splitLabel? (Span.slice text ⟨start, stop⟩) = some (label, value)) :
    Span.slice text ⟨start + ((Span.slice text ⟨start, stop⟩).length - value.length),
      stop⟩ = value ∧
      IsPieceAt text (start + ((Span.slice text ⟨start, stop⟩).length - value.length)) stop := by
  obtain ⟨labelled, hslice, hplain⟩ := Argument.exists_of_splitLabel? hlabel
  obtain ⟨c, hc, _⟩ := h.ends
  have hlength := congrArg List.length hslice
  rw [Span.length_slice (Nat.le_of_lt (List.getElem?_eq_some_iff.1 hc).1), List.length_append,
    List.length_cons] at hlength
  have hle := h.le
  have hgap : (Span.slice text ⟨start, stop⟩).length - value.length = labelled.length + 1 := by
    rw [hslice, List.length_append, List.length_cons]
    omega
  have hvalue : Span.slice text ⟨start + (labelled.length + 1), stop⟩ = value := by
    rw [Span.slice, ← List.drop_drop]
    change (Span.slice text ⟨start, stop⟩).drop (labelled.length + 1) = value
    rw [hslice, ← List.drop_drop, List.drop_left]
    rfl
  rw [hgap]
  have hbalanced := h.balanced
  rw [hslice] at hbalanced
  refine ⟨hvalue, by omega, ?_, h.ends⟩
  rw [hvalue]
  exact Argument.isBalanced_of_labelled hbalanced hplain

theorem IsPieceAt.argument_endsBy (h : IsPieceAt text start stop) :
    Run.EndsBy (text.length - start + 1) (argument text start stop)
      (Reading.moved start (Argument.read (Span.slice text ⟨start, stop⟩))) := by
  intro steps hsteps
  rw [argument, Argument.read]
  cases hlabel : Argument.splitLabel? (Span.slice text ⟨start, stop⟩) with
  | none =>
    dsimp only
    rw [Reading.moved_bind]
    exact (h.expression_endsBy.bind fun found _ =>
      Run.endsBy_ended _ (.ok (Argument.mk none found))) steps hsteps
  | some labelled =>
    obtain ⟨label, value⟩ := labelled
    obtain ⟨hvalue, hpiece⟩ := h.value hlabel
    have hread := hpiece.expression_endsBy
    rw [elementAt, hvalue] at hread
    dsimp only
    rw [Reading.moved_bind, Reading.moved_moved]
    exact ((hread.mono (by omega)).bind fun found _ =>
      Run.endsBy_ended _ (.ok (Argument.mk (some label) found))) steps hsteps

/-! ## Snippets

The text itself is no piece, as nothing follows it; but the inside of every argument list in it is
split into pieces, and around the lists nothing is read but names and blanks. -/

/-- The inside of brackets is the text that is split there. -/
theorem take_drop_eq_slice (text : Text) (i k : Nat) :
    (text.drop (i + 1)).take (k - 1) = Span.slice text ⟨i + 1, i + k⟩ := by
  have hlength : i + k - (i + 1) = k - 1 := by omega
  rw [Span.slice, List.drop_take, hlength]

/-- The arguments of a list are read in place as they are by themselves, stretch by stretch. -/
theorem arguments_endsBy {i j : Nat} (hopener : text[i]? = some (CodePoint.scalar '('))
    (hcloser : text.closerOf i = .ok j) :
    Run.EndsBy (text.length - i) (argumentList text i)
      ((Reading.moved (i + 1) (Argument.readAll (Span.slice text ⟨i + 1, j⟩))).map (·, j + 1)) := by
  intro steps hsteps
  obtain ⟨spans, hsplit, hitems, hpieces⟩ := @split_of_closerOf text .round i j hopener hcloser
  have hread : Reading.moved (i + 1) (Argument.readAll (Span.slice text ⟨i + 1, j⟩)) =
      spans.mapM fun span => Reading.moved span.start (Argument.read (span.slice text)) := by
    rw [Argument.readAll, hitems]
    exact moved_readEach fun span hspan => (hpieces span hspan).1
  -- Each argument stands in the list and needs no more steps than the list has.
  have harguments : Run.EndsBy (text.length - i)
      (fun steps => spans.mapM fun span => argument text span.start span.stop steps)
      (spans.mapM fun span => Reading.moved span.start (Argument.read (span.slice text))) := by
    refine Run.EndsBy.mapM fun span hspan => ?_
    obtain ⟨hless, hpiece⟩ := hpieces span hspan
    obtain ⟨c, hc, _⟩ := hpiece.ends
    have hstop := (List.getElem?_eq_some_iff.1 hc).1
    have hle := hpiece.le
    exact hpiece.argument_endsBy.mono (by omega)
  have hsame := harguments steps hsteps
  dsimp only at hsame
  rw [argumentList, if_pos hopener, @closer_endsBy text i .round hopener steps hsteps,
    hcloser, hread]
  show (split text (i + 1) j steps >>= _) = _
  rw [hsplit steps (by omega)]
  show (spans.mapM (fun span => argument text span.start span.stop steps) >>= _) = _
  rw [hsame]
  cases spans.mapM fun span => Reading.moved span.start (Argument.read (span.slice text)) <;> rfl

/-- An argument list is read in place as it is by itself, and what comes behind the blanks after it
is the same. The offset behind a missing list differs by the blanks, hence `place`. -/
theorem exists_argumentList_endsBy (text : Text) (i : Nat) :
    ∃ place : Nat → Nat, (∀ used, pastBlanks text (place used) = pastBlanks text (i + used)) ∧
      Run.EndsBy (text.length - i) (argumentList text (pastBlanks text i))
        ((Reading.moved i (Snippet.readArguments (text.drop i))).map
          fun (arguments, used) => (arguments, place used)) := by
  have hhead : (Text.trimStart (text.drop i)).head? = text[pastBlanks text i]? := by
    rw [← drop_pastBlanks, List.head?_drop]
  by_cases hround : text[pastBlanks text i]? = some (CodePoint.scalar '(')
  · refine ⟨(i + ·), fun used => rfl, ?_⟩
    rw [Snippet.readArguments, if_pos (hhead.trans hround), ← drop_pastBlanks]
    have hpast : pastBlanks text i = i + Text.leadingBlanks (text.drop i) := rfl
    generalize Text.leadingBlanks (text.drop i) = gap at hpast ⊢
    cases hunit : Text.unitEnd (text.drop (pastBlanks text i)) with
    | error fault =>
      intro steps hsteps
      rw [argumentList, if_pos hround, @closer_endsBy text _ .round hround steps (by omega),
        Text.closerOf, hunit, hpast]
      show Run.ended (.error ⟨fault.cause, i + gap + fault.offset⟩) =
        Run.ended (.error ⟨fault.cause, i + (gap + fault.offset)⟩)
      rw [Nat.add_assoc]
    | ok k =>
      -- A list that is closed: its inside is read in place as it is when cut out.
      have hclose : text.closerOf (pastBlanks text i) = .ok (pastBlanks text i + k) := by
        rw [Text.closerOf, hunit]
        rfl
      have hlist := (arguments_endsBy hround hclose).mono (show _ ≤ text.length - i by omega)
      show Run.EndsBy _ _ ((Reading.moved i (Reading.moved (gap + 1)
        (Argument.readAll (((text.drop i).drop (gap + 1)).take (k - 1))) >>=
          fun arguments => .ok (arguments, gap + k + 1))).map _)
      have hlast : pastBlanks text i + k + 1 = i + (gap + k + 1) := by omega
      rw [← take_drop_eq_slice, hlast, hpast] at hlist
      rw [List.drop_drop, Reading.moved_bind, Reading.moved_moved, ← Nat.add_assoc, hpast]
      cases hread : Argument.readAll ((text.drop (i + gap + 1)).take (k - 1)) with
      | error fault => rwa [hread] at hlist
      | ok arguments => rwa [hread] at hlist
  · refine ⟨fun used => pastBlanks text (i + used),
      fun used => pastBlanks_pastBlanks text (i + used), fun steps _ => ?_⟩
    rw [argumentList, if_neg hround, Snippet.readArguments, if_neg (hhead ▸ hround)]
    rfl

/-- **A snippet is read in place as it is by itself**, with as many steps as the text has code
points, and one more. -/
theorem snippet_endsBy (name text : Text) :
    Run.EndsBy text.length (snippet name text) (Snippet.read name text) := by
  intro steps hsteps
  rw [snippet, Snippet.read]
  cases hmention : Attribute.findMention? name text with
  | none => rfl
  | some offset =>
    dsimp only
    generalize offset + 1 + name.length = i
    obtain ⟨place, hplace, hlist⟩ := exists_argumentList_endsBy text i
    rw [hlist steps (by omega), Snippet.readAfter]
    cases hread : Snippet.readArguments (text.drop i) with
    | error fault => rfl
    | ok found =>
      obtain ⟨arguments, used⟩ := found
      -- The reader in place may have gone over blanks behind the name already, which are skipped
      -- anyway.
      have hskip : pastAttributes text (place used) steps =
          pastAttributes text (i + used) steps := by
        rw [pastAttributes, hplace, ← pastAttributes]
      show (pastAttributes text (place used) steps >>= _) =
        Run.ended (Reading.moved i (Reading.moved used _ >>= _))
      rw [hskip, pastAttributes_endsBy text (i + used) steps (by omega)]
      simp only [List.drop_drop, ← Nat.add_assoc]
      cases Attribute.skip (text.drop (i + used)) with
      | error fault =>
        show Run.ended (.error ⟨fault.cause, i + used + fault.offset⟩) =
          Run.ended (.error ⟨fault.cause, i + (used + fault.offset)⟩)
        rw [Nat.add_assoc]
      | ok skipped =>
        simp only [Reading.moved, Except.map, Run.ended_ok_bind]
        cases hhead : Declaration.ofHead? (text.drop (i + used + skipped)) with
        | none =>
          simp only [bind, Except.bind, hhead]
          rw [Nat.add_assoc]
          rfl
        | some declaration =>
          simp only [bind, Except.bind, hhead]
          rfl

end InPlace

end MemberSynthesis
